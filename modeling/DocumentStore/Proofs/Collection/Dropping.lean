import DocumentStore.Proofs.Collection.Housing

/-!
# Deleting all documents of a collection

Under a policy of a single attempt the first documents are left where they are, one for each conflict
to come (`Database.skipped`); under the other policies all documents are deleted, or the first one
exhausts its attempts and nothing happens.  With a document go its entries under the index fields that
the collection has here; entries that others made under other fields stay (`Collection.Drops`).
-/

namespace DocumentStore

/-! ## Conflicts without end -/

namespace Database

variable {db db' : MemoryDatabase}

/-- An open database on which all commits with checks conflict from now on. -/
structure Stuck (db : MemoryDatabase) : Prop where
  opened : db.memory.closed = false
  endless : db.settings.store.remaining = 0xffffffff

theorem Stuck.pos (h : db.Stuck) : db.settings.store.remaining ≠ 0 := by
  rw [h.endless]
  decide

theorem Stuck.spent (h : db.Stuck) (hspent : db.Spent db') : db'.Stuck := by
  refine ⟨?_, ?_⟩
  · rw [hspent.memory]
    exact h.opened
  · rw [hspent.remaining, if_pos h.endless]
    exact h.endless

theorem Stuck.alike (h : db.Stuck) (hdb' : db.Alike db') : db'.Stuck :=
  ⟨hdb'.closed.trans h.opened, hdb'.remaining.trans h.endless⟩

/-- How many of `n` documents are skipped because of the conflicts to come. -/
def skipped (db : MemoryDatabase) (policy : RetryPolicy) (n : Nat) : Nat :=
  match policy with
  | .single =>
    if db.settings.store.remaining = 0xffffffff then n
    else min db.settings.store.remaining.toNat n
  | .untilSuccess _ => 0

theorem skipped_of_quiet (h : db.settings.store.remaining = 0) (policy : RetryPolicy) (n : Nat) :
    db.skipped policy n = 0 := by
  cases policy with
  | untilSuccess maxAttempts => rfl
  | single =>
    unfold skipped
    rw [h]
    exact Nat.zero_min n

theorem skipped_le (db : MemoryDatabase) (policy : RetryPolicy) (n : Nat) :
    db.skipped policy n ≤ n := by
  unfold skipped
  split
  · split
    · exact Nat.le_refl _
    · exact Nat.min_le_right _ _
  · exact Nat.zero_le _

theorem Alike.skipped (h : db.Alike db') (policy : RetryPolicy) (n : Nat) :
    db'.skipped policy n = db.skipped policy n := by
  unfold Database.skipped
  rw [h.remaining]

end Database

namespace Collection

variable {c : Collection} {change : Change} {q : CompiledQuery} {f : Document → Document}
  {cs rest : List Candidate} {s : Candidate} {id : String} {batch : Batch} {t t' : Table}
  {v v' : Version} {db : MemoryDatabase} {policy : RetryPolicy}

theorem changeOne_stuck (hc : c.WellIndexed) (maxAttempts : UInt32) (retries : Nat)
    {result : Document} (h : db.Stuck) (hs : c.stored? db.memory.table id = some s)
    (haccepts : q.accepts s.document = true)
    (hmade : c.changeBatch change s id = .ok (result, batch)) :
    (c.changeOne change q (.untilSuccess maxAttempts) id retries s).Ends (fun _ _ => False)
      (fun e db' => e = .retriesExhausted change.kind id maxAttempts.toNat ∧
        db'.memory.table = db.memory.table ∧ db'.memory.version = db.memory.version) db := by
  induction retries generalizing db with
  | zero =>
    unfold changeOne
    refine .bind (.of_finishes ((attempt_conflicts hc h.pos hmade).imp ?_))
    rintro o db' ⟨rfl, hspent⟩
    exact .throw ⟨rfl, by rw [hspent.memory], by rw [hspent.memory]⟩
  | succ retries ih =>
    unfold changeOne
    refine .bind (.of_finishes ((attempt_conflicts hc h.pos hmade).imp ?_))
    rintro o db' ⟨rfl, hspent⟩
    have hstuck := h.spent hspent
    rw [← hspent.memory] at hs ⊢
    refine .bind (.of_finishes ((refetch_finishes hstuck.opened hs haccepts).imp ?_))
    rintro found db'' ⟨rfl, hspends⟩
    rw [← hspends.alike.table] at hs ⊢
    rw [← hspends.alike.version]
    exact ih (hstuck.alike hspends.alike) hs

/-- Under conflicts without end a change that is to succeed fails, and changes nothing. -/
theorem changeCandidate_stuck (hc : c.WellIndexed) (maxAttempts : UInt32) (h : db.Stuck)
    (hpending : c.Pending change q f db.memory.table (s :: rest)) :
    (c.changeCandidate change q (.untilSuccess maxAttempts) s).Ends (fun _ _ => False)
      (fun e db' => (∃ id, s.document.identity? = some (.string id) ∧
          e = .retriesExhausted change.kind id maxAttempts.toNat) ∧
        db'.memory.table = db.memory.table ∧ db'.memory.version = db.memory.version) db := by
  obtain ⟨id, batch, hid, hs, haccepts, hmade⟩ := hpending.first
  refine .bind (.of_finishes (.ofExcept (requireId_of_identity hid) ?_))
  exact (changeOne_stuck hc maxAttempts _ h hs haccepts hmade).imp (fun _ _ hfalse => hfalse)
    fun _ _ ⟨he, hsame⟩ => ⟨⟨id, hid, he⟩, hsame⟩

theorem changeEach_stuck_fails (hc : c.WellIndexed) (maxAttempts : UInt32) (h : db.Stuck)
    (hpending : c.Pending change q f db.memory.table (s :: rest)) :
    (c.changeEach change q (.untilSuccess maxAttempts) (s :: rest)).Ends (fun _ _ => False)
      (fun _ db' => db'.memory.table = db.memory.table) db :=
  .bind ((changeCandidate_stuck hc maxAttempts h hpending).imp
    (fun _ _ hfalse => hfalse.elim) fun _ _ he => he.2.1)

theorem changeEach_stuck_skips (hc : c.WellIndexed) (h : db.Stuck)
    (hpending : c.Pending change q f db.memory.table cs) :
    (c.changeEach change q .single cs).Finishes
      (fun results db' => results = [] ∧ db'.memory = db.memory) db := by
  induction cs generalizing db with
  | nil => exact .pure ⟨rfl, rfl⟩
  | cons s rest ih =>
    refine .bind ((changeCandidate_skips hc h.pos hpending).imp ?_)
    rintro o db' ⟨rfl, hspent⟩
    rw [← hspent.memory] at hpending ⊢
    refine .bind ((ih (h.spent hspent) hpending.tail).imp ?_)
    rintro results db'' ⟨rfl, hmemory⟩
    exact .pure ⟨rfl, hmemory⟩

/-! ## Documents one after another, under any number of conflicts -/

/-- Conflicts to come exhaust a policy: they are as many as the attempts, or more. -/
def Exhausted (policy : RetryPolicy) (db : MemoryDatabase) : Prop :=
  ∃ maxAttempts, policy = .untilSuccess maxAttempts ∧
    maxAttempts.toNat ≤ db.settings.store.remaining.toNat

theorem Exhausted.of_alike {db' : MemoryDatabase} (hdb' : db.Alike db') (h : Exhausted policy db') :
    Exhausted policy db := by
  obtain ⟨maxAttempts, hpolicy, hle⟩ := h
  exact ⟨maxAttempts, hpolicy, hdb'.remaining ▸ hle⟩

/-- With a single attempt for each document, those beyond the skipped ones are changed. -/
theorem changeEach_settles_single (hc : c.WellIndexed) (hopen : db.memory.closed = false)
    (hpending : c.Pending change q f db.memory.table cs) :
    (c.changeEach change q .single cs).Finishes
      (fun results db' =>
        results = (cs.drop (db.skipped .single cs.length)).map (fun s => f s.document) ∧
        c.Rewrites change f (cs.drop (db.skipped .single cs.length)) db.memory.table
          db.memory.version db'.memory.table db'.memory.version) db := by
  by_cases hstuck : db.settings.store.remaining = 0xffffffff
  · have hskipped : db.skipped .single cs.length = cs.length := if_pos hstuck
    refine (changeEach_stuck_skips hc ⟨hopen, hstuck⟩ hpending).imp ?_
    rintro results db' ⟨rfl, hmemory⟩
    rw [hskipped, List.drop_length, hmemory]
    exact ⟨rfl, .nil _ _⟩
  · have hskipped : db.skipped .single cs.length =
        min db.settings.store.remaining.toNat cs.length := if_neg hstuck
    refine (changeEach_skips hc ⟨⟨hopen, hstuck⟩, rfl⟩ hpending).imp ?_
    rintro results db' ⟨rfl, _, hrewrites⟩
    rw [hskipped, ← List.drop_eq_drop_min]
    exact ⟨rfl, hrewrites⟩

/-- With several attempts for each document all are changed, or the conflicts exhaust the attempts on
the first one and none is. -/
theorem changeEach_settles_untilSuccess {maxAttempts : UInt32} (hc : c.WellIndexed)
    (hopen : db.memory.closed = false)
    (hpolicy : (RetryPolicy.untilSuccess maxAttempts).check = .ok ())
    (hpending : c.Pending change q f db.memory.table cs) :
    (c.changeEach change q (.untilSuccess maxAttempts) cs).Ends
      (fun results db' => results = cs.map (fun s => f s.document) ∧
        c.Rewrites change f cs db.memory.table db.memory.version db'.memory.table
          db'.memory.version)
      (fun _ db' => Exhausted (.untilSuccess maxAttempts) db ∧
        db'.memory.table = db.memory.table) db := by
  rcases cs with _ | ⟨s, rest⟩
  · exact .pure ⟨rfl, .nil _ _⟩
  by_cases hstuck : db.settings.store.remaining = 0xffffffff
  · refine (changeEach_stuck_fails hc maxAttempts ⟨hopen, hstuck⟩ hpending).imp
      (fun _ _ hfalse => hfalse.elim) fun _ db' htable => ⟨⟨maxAttempts, rfl, ?_⟩, htable⟩
    have hlt := maxAttempts.toNat_lt
    rw [hstuck]
    show maxAttempts.toNat ≤ 0xffffffff
    omega
  have h : db.Blocked db.settings.store.remaining.toNat := ⟨⟨hopen, hstuck⟩, rfl⟩
  by_cases hle : maxAttempts.toNat ≤ db.settings.store.remaining.toNat
  · refine (changeEach_exhausts hc hpolicy h hle hpending).imp
      (fun _ _ hfalse => hfalse.elim) fun _ db' hexhausts => ⟨⟨maxAttempts, rfl, hle⟩, ?_⟩
    rw [hexhausts.spends.memory]
  · have hattempts : maxAttempts.toNat = (RetryPolicy.untilSuccess maxAttempts).retries + 1 :=
      RetryPolicy.attempts_eq hpolicy
    refine .of_finishes ((changeEach_lands hc h (by omega) hpending).imp ?_)
    rintro results db' ⟨rfl, _, hrewrites⟩
    exact ⟨rfl, hrewrites⟩

/-- The documents beyond the skipped ones are changed, or the conflicts exhaust the policy and none
is. -/
theorem changeEach_settles (hc : c.WellIndexed) (hopen : db.memory.closed = false)
    (hpolicy : policy.check = .ok ()) (hpending : c.Pending change q f db.memory.table cs) :
    (c.changeEach change q policy cs).Ends
      (fun results db' =>
        results = (cs.drop (db.skipped policy cs.length)).map (fun s => f s.document) ∧
        c.Rewrites change f (cs.drop (db.skipped policy cs.length)) db.memory.table
          db.memory.version db'.memory.table db'.memory.version)
      (fun _ db' => Exhausted policy db ∧ db'.memory.table = db.memory.table) db := by
  cases policy with
  | single => exact .of_finishes (changeEach_settles_single hc hopen hpending)
  | untilSuccess maxAttempts => exact changeEach_settles_untilSuccess hc hopen hpolicy hpending

/-! ## What deleting documents makes of a table -/

/-- Exactly the entries of the deleted documents are gone. -/
theorem Rewrites.deletes (hc : c.WellIndexed)
    (h : c.Rewrites .delete (fun d => d) cs t v t' v') (e : Entry) :
    e ∈ t'.entries ↔ e ∈ t.entries ∧ ∀ s ∈ cs, ∀ id, s.document.identity? = some (.string id) →
      ∀ key ∈ c.keysOf s.document id, ¬ e.key.same key = true := by
  induction h with
  | nil t v => simp
  | @cons s rest id batch t t' v v' hid _ hmade _ ih =>
    cases hmade
    have happly : e ∈ (t.applyAll (v + 1) (c.deleteBatch s.document id s.version).mutations).entries ↔
        e ∈ t.entries ∧ ∀ key ∈ c.keysOf s.document id, ¬ e.key.same key = true := by
      rw [(replaces_deleteBatch hc s.document id s.version).mem_applyAll, deleteBatch_eq]
      simp [Mutation.key]
    rw [ih, happly, and_assoc]
    refine and_congr_right fun _ => ⟨?_, ?_⟩
    · rintro ⟨hfirst, hrest⟩
      refine List.forall_mem_cons.2 ⟨fun id' hid' => ?_, hrest⟩
      cases hid.symm.trans hid'
      exact hfirst
    · intro hall
      obtain ⟨hfirst, hrest⟩ := List.forall_mem_cons.1 hall
      exact ⟨hfirst id hid, hrest⟩

def Removes (c : Collection) (p : Entry) (key : Key) : Prop :=
  ∃ id d, p.key = c.primaryKey id ∧ p.value = .map d ∧ ∃ key' ∈ c.keysOf d id, key.same key' = true

/-- All documents but the first `k` are gone, with the index entries that the collection keeps of
them, and nothing else is different. -/
def Drops (c : Collection) (k : Nat) (t t' : Table) : Prop :=
  ∀ e, e ∈ t'.entries ↔ e ∈ t.entries ∧
    ∀ p ∈ (t.under (Layout.primaryBase c.name)).drop k, ¬ c.Removes p e.key

theorem Rewrites.drops (hc : c.WellIndexed) (ht : t.Housed) {k : Nat}
    (h : c.Rewrites .delete (fun d => d)
      ((CompiledQuery.all.candidates (t.under (Layout.primaryBase c.name))).drop k) t v t' v') :
    c.Drops k t t' := by
  have hentries : List.Forall₂ (fun e s => Candidate.ofEntry e = .ok s)
      ((t.under (Layout.primaryBase c.name)).drop k)
      ((CompiledQuery.all.candidates (t.under (Layout.primaryBase c.name))).drop k) :=
    List.forall₂_drop k (CompiledQuery.candidates_all fun e he =>
      ht.ofEntry (Table.mem_under.1 he).1)
  -- an entry and its candidate are the same document under the same identity
  have hsame : ∀ {p s}, p ∈ (t.under (Layout.primaryBase c.name)).drop k →
      Candidate.ofEntry p = .ok s → ∀ key, (¬ c.Removes p key) ↔
        ∀ id, s.document.identity? = some (.string id) →
          ∀ key' ∈ c.keysOf s.document id, ¬ key.same key' = true := by
    intro p s hp hs key
    obtain ⟨id, d, hpd, hid⟩ := ht.primary (List.mem_of_mem_drop hp)
    rw [hpd] at hs
    cases hs
    constructor
    · intro hnot id' hid' key' hkey' hkeys
      cases hid.symm.trans hid'
      refine hnot ⟨id, d, ?_, ?_, key', hkey', hkeys⟩
      · rw [hpd]
        rfl
      · rw [hpd]
    · rintro hall ⟨id', d', hkey', hvalue, key', hmem, hkeys⟩
      rw [hpd] at hkey' hvalue
      cases hvalue
      cases hkey'
      exact hall id hid key' hmem hkeys
  intro e
  rw [h.deletes hc]
  refine and_congr_right fun _ => ⟨fun hall p hp => ?_, fun hall s hs => ?_⟩
  · obtain ⟨i, hi, rfl⟩ := List.mem_iff_getElem.1 hp
    have hi' := hentries.length_eq ▸ hi
    exact (hsame hp (hentries.get hi hi') e.key).2 (hall _ (List.getElem_mem hi'))
  · obtain ⟨i, hi, rfl⟩ := List.mem_iff_getElem.1 hs
    have hi' := hentries.length_eq.symm ▸ hi
    exact (hsame (List.getElem_mem hi') (hentries.get hi' hi) e.key).1 (hall _ (List.getElem_mem hi'))

/-- Deleting all documents leaves entries of other names alone. -/
theorem Drops.sameElsewhere {k : Nat} (h : c.Drops k t t') : t.SameElsewhere c.name t' := by
  intro e he
  rw [h e]
  refine ⟨And.left, fun hmem => ⟨hmem, ?_⟩⟩
  rintro p _ ⟨id, d, _, _, key, hkey, hsame⟩
  have howned := Key.belongsTo_of_same hsame (owns_of_mem_keysOf hkey).belongsTo
  rw [he] at howned
  cases howned

theorem Drops.housed {k : Nat} (h : c.Drops k t t') (ht : t.Housed) : t'.Housed :=
  fun e he => ht e ((h e).1 he).1

/-- No document of the name is left if none is skipped. -/
theorem Drops.under_eq_nil (h : c.Drops 0 t t') (ht : t.Housed) :
    t'.under (Layout.primaryBase c.name) = [] := by
  refine List.eq_nil_iff_forall_not_mem.2 fun e he => ?_
  obtain ⟨hmem, hunder⟩ := Table.mem_under.1 he
  obtain ⟨hold, hnone⟩ := (h e).1 hmem
  have hprimary := Table.mem_under.2 ⟨hold, hunder⟩
  obtain ⟨id, d, hkey, _⟩ := ht.primary hprimary
  refine hnone e hprimary ⟨id, d, ?_, ?_, c.primaryKey id, c.primaryKey_mem_keysOf d id, ?_⟩
  · rw [hkey]
    rfl
  · rw [hkey]
  · rw [hkey]
    exact Key.same_refl _

/-! ## Dropping a collection -/

/-- What is selected of everything are the primary entries. -/
theorem selected_all (c : Collection) (t : Table) :
    c.selected t .all = CompiledQuery.all.candidates (t.under (Layout.primaryBase c.name)) := by
  have hstrategy : (c.plan .all).strategy = .everything := Strategy.choose_all c.indexes
  unfold selected
  rw [hstrategy]
  rfl

theorem dropAll_settles (hc : c.WellIndexed) (hbatch : 0 < c.defaults.scanBatch)
    (hpolicy : (c.retryPolicy .delete {}).check = .ok ()) (ht : db.memory.table.Housed)
    (hopen : db.memory.closed = false) {fuel : Nat} (hfuel : db.memory.table.size < fuel) :
    (c.dropAll fuel).Ends
      (fun n db' =>
        let primaries := db.memory.table.under (Layout.primaryBase c.name)
        let skipped := db.skipped (c.retryPolicy .delete {}) primaries.length
        n + skipped = primaries.length ∧ c.Drops skipped db.memory.table db'.memory.table)
      (fun _ db' => Exhausted (c.retryPolicy .delete {}) db ∧
        db'.memory.table = db.memory.table) db := by
  have hlength : (c.selected db.memory.table .all).length =
      (db.memory.table.under (Layout.primaryBase c.name)).length := by
    rw [selected_all]
    exact CompiledQuery.length_candidates_all fun e he => ht.ofEntry (Table.mem_under.1 he).1
  -- deleting starts once all candidates are read, which changes no entry and uses up no conflict
  have hchange : (c.change .delete .all {} fuel).Ends
      (fun results db' =>
        let left := (c.selected db.memory.table .all).drop
          (db.skipped (c.retryPolicy .delete {}) (c.selected db.memory.table .all).length)
        results.length = left.length ∧ c.Rewrites .delete (fun d => d) left db.memory.table
          db.memory.version db'.memory.table db'.memory.version)
      (fun _ db' => Exhausted (c.retryPolicy .delete {}) db ∧
        db'.memory.table = db.memory.table) db := by
    refine change_gathers (fun e he => ht.ofEntry (Strategy.mem_of_mem_entries he).1) hopen hbatch
      hfuel hpolicy (fun _ _ _ _ honce => by cases honce) fun db' _ hspends => ?_
    have halike := hspends.alike
    have hpending : c.Pending .delete .all (fun d => d) db'.memory.table
        (c.selected db.memory.table .all) := by
      rw [halike.table, selected_all]
      exact ht.pending c
    refine (changeEach_settles hc (halike.closed.trans hopen) hpolicy hpending).imp ?_ ?_
    · rintro results db'' ⟨rfl, hrewrites⟩
      rw [halike.skipped, halike.table, halike.version] at hrewrites
      rw [halike.skipped]
      exact ⟨List.length_map _, hrewrites⟩
    · rintro e db'' ⟨hexhausted, htable⟩
      exact ⟨hexhausted.of_alike halike, htable.trans halike.table⟩
  refine .bind (hchange.imp ?_ fun _ _ h => h)
  rintro results db' ⟨hresults, hrewrites⟩
  rw [hlength, selected_all] at hrewrites
  refine .pure ⟨?_, hrewrites.drops hc ht⟩
  have hle := db.skipped_le (c.retryPolicy .delete {})
    (db.memory.table.under (Layout.primaryBase c.name)).length
  rw [hresults, List.length_drop, hlength]
  omega

end Collection

end DocumentStore

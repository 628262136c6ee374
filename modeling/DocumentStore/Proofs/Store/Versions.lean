import DocumentStore.Proofs.Store.TableContents
import DocumentStore.Store.Memory

/-!
# Versions never repeat

A store in memory counts the commits that take effect, and an entry carries the number of the commit
that wrote it.  So a key that carries one version at two moments was not written or deleted between
them, however often it was deleted and written again before or after.
-/

namespace DocumentStore

/-! ## Lookups after a batch -/

def Mutation.entry? (version : Version) : Mutation → Option Entry
  | .set key value => some ⟨key, value, version⟩
  | .delete _ => none

def Mutation.last? (ms : List Mutation) (key : Key) : Option Mutation :=
  ms.reverse.find? (·.key.same key)

namespace Table

variable {t : Table} {v : Version} {key : Key}

theorem find?_insert {e : Entry} :
    (t.insert e).find? key = if e.key.same key then some e else t.find? key := by
  refine Option.ext fun f => ?_
  rw [find?_eq_some_iff, mem_insert]
  split
  · rename_i hkey
    -- what has the key is the new entry, as the old one is gone
    refine ⟨?_, fun hf => by cases hf; exact ⟨.inl rfl, hkey⟩⟩
    rintro ⟨rfl | ⟨_, hne⟩, hf⟩
    · rfl
    · rw [Key.same_comm] at hkey
      exact absurd (Key.same_trans hf hkey) hne
  · rename_i hkey
    rw [find?_eq_some_iff]
    refine ⟨?_, fun ⟨hmem, hf⟩ => ⟨.inr ⟨hmem, fun hsame => ?_⟩, hf⟩⟩
    · rintro ⟨rfl | ⟨hmem, _⟩, hf⟩
      · exact absurd hf hkey
      · exact ⟨hmem, hf⟩
    · rw [Key.same_comm] at hsame
      exact hkey (Key.same_trans hsame hf)

theorem find?_erase {k : Key} :
    (t.erase k).find? key = if k.same key then none else t.find? key := by
  refine Option.ext fun f => ?_
  rw [find?_eq_some_iff, mem_erase]
  split
  · rename_i hkey
    refine ⟨?_, fun hf => by cases hf⟩
    rintro ⟨⟨_, hne⟩, hf⟩
    rw [Key.same_comm] at hkey
    exact absurd (Key.same_trans hf hkey) hne
  · rename_i hkey
    rw [find?_eq_some_iff]
    refine ⟨fun ⟨⟨hmem, _⟩, hf⟩ => ⟨hmem, hf⟩, fun ⟨hmem, hf⟩ => ⟨⟨hmem, fun hsame => ?_⟩, hf⟩⟩
    rw [Key.same_comm] at hsame
    exact hkey (Key.same_trans hsame hf)

theorem find?_apply {m : Mutation} :
    (t.apply v m).find? key = if m.key.same key then m.entry? v else t.find? key := by
  cases m with
  | set k value => exact find?_insert
  | delete k => exact find?_erase

/-- After a batch the last mutation of a key decides what is there, whatever the earlier ones do. -/
theorem find?_applyAll {ms : List Mutation} :
    (t.applyAll v ms).find? key =
      ((Mutation.last? ms key).elim (t.find? key) (Mutation.entry? v)) := by
  induction ms generalizing t with
  | nil => rfl
  | cons m ms ih =>
    change ((t.apply v m).applyAll v ms).find? key = _
    rw [ih, find?_apply]
    unfold Mutation.last?
    rw [List.reverse_cons, List.find?_append]
    cases ms.reverse.find? (·.key.same key) with
    | some n => rfl
    | none =>
      by_cases hkey : m.key.same key = true
      · simp [hkey]
      · simp [hkey]

/-- The entries after a batch are old ones or carry its version. -/
theorem mem_of_mem_applyAll {ms : List Mutation} {e : Entry}
    (h : e ∈ (t.applyAll v ms).entries) : e.version = v ∨ e ∈ t.entries := by
  induction ms generalizing t with
  | nil => exact .inr h
  | cons m ms ih =>
    rcases ih (t := t.apply v m) h with hv | h
    · exact .inl hv
    · rcases mem_apply.1 h with ⟨_, _, _, rfl⟩ | ⟨h, _⟩
      · exact .inl rfl
      · exact .inr h

end Table

/-! ## Runs of a store -/

namespace Memory

inductive Call where
  | get (key : Key)
  | scan (base : Key) (after : Option Key) (limit : Nat)
  | commit (b : Batch)
  | close
  | resetCounts

def after (m : Memory) : Call → Memory
  | .get key => (m.get key).2
  | .scan base after limit => (m.scan base after limit).2
  | .commit b => (m.commit b).2
  | .close => m.close
  | .resetCounts => m.resetCounts

/-- The version that a call returns: that of a commit, if it takes effect. -/
def returned? (m : Memory) : Call → Option Version
  | .commit b =>
    match (m.commit b).1 with
    | .ok (.committed v) => some v
    | _ => none
  | _ => none

def returned : Memory → List Call → List Version
  | _, [] => []
  | m, call :: calls => (m.returned? call).toList ++ (m.after call).returned calls

/-- The store after so many calls of a run that began with an empty one. -/
def moment (calls : List Call) (n : Nat) : Memory := (calls.take n).foldl after empty

/-- A call of a run is a commit that takes effect under a version. -/
structure CommitsAt (calls : List Call) (k : Nat) (b : Batch) (v : Version) : Prop where
  call : calls[k]? = some (.commit b)
  result : ((moment calls k).commit b).1 = .ok (.committed v)

theorem returned?_commit {m : Memory} {b : Batch} {v : Version} :
    m.returned? (.commit b) = some v ↔ (m.commit b).1 = .ok (.committed v) := by
  unfold returned?
  dsimp only
  split
  · rename_i hw
    rw [hw]
    simp
  · rename_i hne
    exact ⟨fun h => by (cases h), fun h => absurd h (hne v)⟩

/-- A call is a commit that takes effect under the next version, or changes no entry and no version.
-/
theorem after_cases (m : Memory) (call : Call) :
    (∃ b, call = .commit b ∧ m.returned? call = some (m.version + 1) ∧
      (m.after call).table = m.table.applyAll (m.version + 1) b.mutations ∧
      (m.after call).version = m.version + 1) ∨
    (m.returned? call = none ∧ (m.after call).table = m.table ∧
      (m.after call).version = m.version) := by
  cases call with
  | commit b =>
    unfold returned? after commit
    dsimp only
    by_cases hclosed : m.closed = true
    · rw [if_pos hclosed]
      exact .inr ⟨rfl, rfl, rfl⟩
    · rw [if_neg hclosed]
      by_cases hchecks : b.checks.all m.holds = true
      · rw [if_pos hchecks]
        exact .inl ⟨b, rfl, rfl, rfl, rfl⟩
      · rw [if_neg hchecks]
        exact .inr ⟨rfl, rfl, rfl⟩
  | get key =>
    refine .inr ⟨rfl, ?_⟩
    unfold after get
    dsimp only
    split
    · exact ⟨rfl, rfl⟩
    · split <;> exact ⟨rfl, rfl⟩
  | scan base after limit =>
    refine .inr ⟨rfl, ?_⟩
    unfold Memory.after scan
    dsimp only
    split <;> exact ⟨rfl, rfl⟩
  | close => exact .inr ⟨rfl, rfl, rfl⟩
  | resetCounts => exact .inr ⟨rfl, rfl, rfl⟩

theorem version_le_after (m : Memory) (call : Call) : m.version ≤ (m.after call).version := by
  rcases m.after_cases call with ⟨_, _, _, _, hversion⟩ | ⟨_, _, hversion⟩
  · exact hversion ▸ Nat.le_succ _
  · exact hversion ▸ Nat.le_refl _

/-- If no entry is newer than the last commit, then none is after a call. -/
theorem after_dated {m : Memory} (h : ∀ e ∈ m.table.entries, e.version ≤ m.version) (call : Call) :
    ∀ e ∈ (m.after call).table.entries, e.version ≤ (m.after call).version := by
  rcases m.after_cases call with ⟨b, _, _, htable, hversion⟩ | ⟨_, htable, hversion⟩
  · rw [htable, hversion]
    intro e he
    rcases Table.mem_of_mem_applyAll he with hv | he
    · exact Nat.le_of_eq hv
    · exact Nat.le_succ_of_le (h e he)
  · rwa [htable, hversion]

/-- The versions that a run returns are the next ones, one after another. -/
theorem returned_eq_range' (m : Memory) (calls : List Call) :
    (calls.foldl after m).version = m.version + (m.returned calls).length ∧
      m.returned calls = List.range' (m.version + 1) (m.returned calls).length := by
  induction calls generalizing m with
  | nil => exact ⟨rfl, rfl⟩
  | cons call calls ih =>
    obtain ⟨hversion, hreturned⟩ := ih (m.after call)
    rw [List.foldl_cons, hversion, returned]
    rcases m.after_cases call with ⟨_, _, hv, _, hnext⟩ | ⟨hv, _, hnext⟩
    · rw [hnext] at hreturned ⊢
      rw [hv, Option.toList_some, List.singleton_append, List.length_cons, List.range'_succ,
        ← hreturned]
      exact ⟨by rw [Nat.add_assoc, Nat.add_comm 1], rfl⟩
    · rw [hnext] at hreturned ⊢
      rw [hv, Option.toList_none, List.nil_append]
      exact ⟨rfl, hreturned⟩

/-! ## Moments -/

variable {calls : List Call} {k i j n : Nat} {b : Batch} {v : Version}

/-- From one moment to the next there is at most one call. -/
theorem moment_succ (calls : List Call) (n : Nat) :
    moment calls (n + 1) = match calls[n]? with
      | some call => (moment calls n).after call
      | none => moment calls n := by
  unfold moment
  rw [List.take_add_one, List.foldl_append]
  cases calls[n]? <;> rfl

theorem moment_version_mono (calls : List Call) (h : i ≤ j) :
    (moment calls i).version ≤ (moment calls j).version := by
  induction h with
  | refl => exact Nat.le_refl _
  | @step j _ ih =>
    refine Nat.le_trans ih ?_
    rw [moment_succ]
    split
    · exact version_le_after _ _
    · exact Nat.le_refl _

/-- At each moment no entry is newer than the last commit. -/
theorem moment_dated (calls : List Call) (n : Nat) :
    ∀ e ∈ (moment calls n).table.entries, e.version ≤ (moment calls n).version := by
  induction n with
  | zero => exact fun e he => by cases he
  | succ n ih =>
    rw [moment_succ]
    split
    · exact after_dated ih _
    · exact ih

theorem version?_dated {m : Memory} (h : ∀ e ∈ m.table.entries, e.version ≤ m.version) {key : Key}
    (hv : m.table.version? key = some v) : v ≤ m.version := by
  obtain ⟨e, he, rfl⟩ := Option.map_eq_some_iff.1 hv
  exact h e (Table.find?_eq_some_iff.1 he).1

namespace CommitsAt

/-- The version of a commit is the next one, and the commit applies its batch under it. -/
theorem effect (h : CommitsAt calls k b v) :
    v = (moment calls k).version + 1 ∧ (moment calls (k + 1)).version = v ∧
      (moment calls (k + 1)).table = (moment calls k).table.applyAll v b.mutations := by
  have hreturned := returned?_commit.2 h.result
  rw [moment_succ, h.call]
  rcases (moment calls k).after_cases (.commit b) with
    ⟨b', hb, hv, htable, hversion⟩ | ⟨hv, _, _⟩
  · cases hb
    cases hreturned.symm.trans hv
    exact ⟨rfl, hversion, htable⟩
  · cases hreturned.symm.trans hv

end CommitsAt

/-- From one moment to the next either one commit takes effect, or no entry and no version changes. -/
theorem moment_cases (calls : List Call) (k : Nat) :
    (∃ b v, CommitsAt calls k b v) ∨
    ((∀ b v, ¬ CommitsAt calls k b v) ∧
      (moment calls (k + 1)).table = (moment calls k).table ∧
      (moment calls (k + 1)).version = (moment calls k).version) := by
  rw [moment_succ]
  cases hcall : calls[k]? with
  | none => exact .inr ⟨fun b v h => (nomatch hcall.symm.trans h.call), rfl, rfl⟩
  | some call =>
    rcases (moment calls k).after_cases call with ⟨b, rfl, hv, _, _⟩ | ⟨hv, hsame⟩
    · exact .inl ⟨b, _, hcall, returned?_commit.1 hv⟩
    · refine .inr ⟨fun b v h => ?_, hsame⟩
      cases hcall.symm.trans h.call
      rw [returned?_commit.2 h.result] at hv
      cases hv

/-- No commit that takes effect from one moment to another one has to do with a key. -/
def Untouched (calls : List Call) (i j : Nat) (key : Key) : Prop :=
  ∀ k b v, i ≤ k → k < j → CommitsAt calls k b v → ∀ m ∈ b.mutations, ¬ m.key.same key = true

/-- After a moment a key is untouched and holds what it held, or holds something newer or nothing. -/
theorem untouched_or_newer (calls : List Call) (h : i ≤ j) (key : Key) :
    (Untouched calls i j key ∧
      (moment calls j).table.find? key = (moment calls i).table.find? key) ∨
    ∀ v, (moment calls j).table.version? key = some v → (moment calls i).version < v := by
  induction h with
  | refl => exact .inl ⟨fun k b v hi hj => absurd (Nat.lt_of_le_of_lt hi hj) (Nat.lt_irrefl _), rfl⟩
  | @step j hij ih =>
    rcases moment_cases calls j with ⟨b, v, hcommit⟩ | ⟨hnone, htable, _⟩
    · obtain ⟨hv, _, htable⟩ := hcommit.effect
      have hlt : (moment calls i).version < v :=
        hv ▸ Nat.lt_succ_of_le (moment_version_mono calls hij)
      have hfind : (moment calls (j + 1)).table.find? key =
          (Mutation.last? b.mutations key).elim ((moment calls j).table.find? key)
            (Mutation.entry? v) := by
        rw [htable, Table.find?_applyAll]
      cases hlast : Mutation.last? b.mutations key with
      -- the commit writes the key or deletes it
      | some m =>
        refine .inr fun u hu => ?_
        rw [Table.version?, hfind, hlast] at hu
        cases m with
        | set k value => cases hu; exact hlt
        | delete k => cases hu
      -- the commit leaves the key alone
      | none =>
        rw [hlast] at hfind
        change _ = (moment calls j).table.find? key at hfind
        rcases ih with ⟨huntouched, hsame⟩ | hnewer
        · refine .inl ⟨fun k b' v' hi hk hcommit' => ?_, hfind.trans hsame⟩
          rcases Nat.lt_or_eq_of_le (Nat.le_of_lt_succ hk) with hk | rfl
          · exact huntouched k b' v' hi hk hcommit'
          · cases hcommit.call.symm.trans hcommit'.call
            intro m hm
            exact List.find?_eq_none.1 hlast m (List.mem_reverse.2 hm)
        · exact .inr fun u hu => hnewer u (by rwa [Table.version?, hfind] at hu)
    · rcases ih with ⟨huntouched, hsame⟩ | hnewer
      · refine .inl ⟨fun k b v hi hk hcommit => ?_, by rw [htable, hsame]⟩
        rcases Nat.lt_or_eq_of_le (Nat.le_of_lt_succ hk) with hk | rfl
        · exact huntouched k b v hi hk hcommit
        · exact absurd hcommit (hnone b v)
      · exact .inr fun u hu => hnewer u (by rwa [htable] at hu)

/-! ## Versions -/

structure Versioned (calls : List Call) : Prop where
  /-- No entry is newer than the counter. -/
  dated : ∀ n, ∀ e ∈ (moment calls n).table.entries, e.version ≤ (moment calls n).version
  /-- The counter fits into 64 bits. -/
  fits : ∀ n, (moment calls n).version < UInt64.size
  /-- A commit that takes effect returns the counter after it, and no version as great was returned
  by an earlier commit or stored before. -/
  greatest : ∀ k b v, CommitsAt calls k b v →
    (moment calls (k + 1)).version = v ∧
    (∀ k' b' v', k' < k → CommitsAt calls k' b' v' → v' < v) ∧
    ∀ n ≤ k, ∀ e ∈ (moment calls n).table.entries, e.version < v
  /-- After it, the keys whose last mutation in the batch writes them carry its version, and no
  others. -/
  written : ∀ k b v, CommitsAt calls k b v → ∀ key,
    (moment calls (k + 1)).table.version? key = some v ↔
      ∃ key' value, Mutation.last? b.mutations key = some (.set key' value)
  /-- A commit that is answered with a conflict or an error changes no entry and not the counter. -/
  refused : ∀ k b, calls[k]? = some (.commit b) →
    (∀ v, ((moment calls k).commit b).1 ≠ .ok (.committed v)) →
    (moment calls (k + 1)).table = (moment calls k).table ∧
    (moment calls (k + 1)).version = (moment calls k).version
  /-- A key that carries one version at two moments was untouched between them and holds the same
  entry. -/
  unrepeated : ∀ i j key v, i ≤ j →
    (moment calls i).table.version? key = some v → (moment calls j).table.version? key = some v →
    Untouched calls i j key ∧
    (moment calls j).table.find? key = (moment calls i).table.find? key

/-- Versions never repeat on a key in a run of fewer commits than the counter can count. -/
theorem versions_never_repeat (calls : List Call)
    (hfew : (empty.returned calls).length < UInt64.size) : Versioned calls := by
  refine ⟨moment_dated calls, fun n => ?_, fun k b v h => ?_, fun k b v h key => ?_,
    fun k b hcall hne => ?_, fun i j key v hij hi hj => ?_⟩
  · -- the counter at the end is the number of all commits that took effect
    have hend : (moment calls (max n calls.length)).version = (empty.returned calls).length := by
      rw [moment, List.take_of_length_le (Nat.le_max_right _ _), (returned_eq_range' _ _).1]
      exact Nat.zero_add _
    exact Nat.lt_of_le_of_lt (moment_version_mono calls (Nat.le_max_left n calls.length))
      (hend ▸ hfew)
  · obtain ⟨hv, hafter, _⟩ := h.effect
    refine ⟨hafter, fun k' b' v' hk h' => ?_, fun n hn e he => ?_⟩
    · rw [hv, ← h'.effect.2.1]
      exact Nat.lt_succ_of_le (moment_version_mono calls hk)
    · rw [hv]
      exact Nat.lt_succ_of_le
        (Nat.le_trans (moment_dated calls n e he) (moment_version_mono calls hn))
  · obtain ⟨hv, _, htable⟩ := h.effect
    rw [htable, Table.version?, Table.find?_applyAll]
    cases hlast : Mutation.last? b.mutations key with
    | some m =>
      cases m with
      | set key' value => exact iff_of_true rfl ⟨key', value, rfl⟩
      | delete key' => exact iff_of_false nofun fun ⟨_, _, h⟩ => nomatch h
    | none =>
      -- what was stored before is older
      refine iff_of_false (fun hold => ?_) fun ⟨_, _, h⟩ => nomatch h
      have hle := version?_dated (moment_dated calls k) hold
      rw [hv] at hle
      exact absurd hle (Nat.not_succ_le_self _)
  · rcases moment_cases calls k with ⟨b', v, h⟩ | ⟨_, hsame⟩
    · cases hcall.symm.trans h.call
      exact absurd h.result (hne v)
    · exact hsame
  · rcases untouched_or_newer calls hij key with h | hnewer
    · exact h
    · exact absurd (version?_dated (moment_dated calls i) hi) (Nat.not_le_of_gt (hnewer v hj))

/-- An entry is written, deleted and written again, and a commit that saw the first version of it
conflicts. -/
theorem versions_never_repeat_of_reinsertion : ∃ calls : List Call,
    empty.returned calls = [1, 2, 3] ∧ calls.length = 4 ∧ Versioned calls := by
  let key : Key := ⟨[.string "articles", .string "_id", .string "a"]⟩
  let calls : List Call :=
    [.commit (Batch.empty.set key (.integer 1)), .commit (Batch.empty.delete key),
      .commit ((Batch.empty.delete key).set key (.integer 2)),
      .commit ((Batch.empty.check key (some 1)).set key (.integer 3))]
  have hreturned : empty.returned calls = [1, 2, 3] := by decide +kernel
  exact ⟨calls, hreturned, rfl, versions_never_repeat calls (by rw [hreturned]; decide)⟩

end Memory

end DocumentStore

import DocumentStore.Proofs.Database.Runs

/-!
# Atomic changes

However clients interleave, an update or a delete takes effect on the document that is stored just
before its commit.  So each stored version is replaced at most once, an update is never overwritten by
one that did not see it, and an identity is inserted again only after a delete.
-/

namespace DocumentStore

open Collection

namespace Linked

variable {c : Collection} {m m' : Memory} {ws l₁ mid l₂ : List Commit} {a b : Commit} {id : String}

abbrev Good (c : Collection) (ws : List Commit) : Prop :=
  ∀ w ∈ ws, c.Sound w.before ∧ w.Effective ∧ c.Progress w.before w.after

/-- The commits between two commits of a history. -/
theorem between (h : Linked m (l₁ ++ a :: (mid ++ b :: l₂)) m') :
    ∃ m₁, Linked a.after mid m₁ ∧ b.before.table = m₁.table ∧ b.before.version = m₁.version := by
  obtain ⟨m₀, _, h⟩ := h.of_append
  cases h with
  | cons _ _ _ h =>
    obtain ⟨m₁, hmid, h⟩ := h.of_append
    cases h with
    | cons htable hversion _ _ => exact ⟨m₁, hmid, htable, hversion⟩

theorem progress_of_mem (hm : c.Sound m) (hgood : Good c ws) (h : Linked m ws m') :
    ∀ w ∈ ws, c.Progress m w.before := by
  intro w hw
  obtain ⟨l₁, l₂, rfl⟩ := List.append_of_mem hw
  obtain ⟨m₁, hl₁, hl₂⟩ := h.of_append
  have hm₁ := hl₁.progress hm fun w hw _ _ => (hgood w (List.mem_append_left _ hw)).2.2
  cases hl₂ with
  | cons htable hversion _ _ => exact hm₁.trans (.of_eq hm₁.sound htable hversion)

/-- Every commit makes progress from where the earlier ones ended. -/
theorem pairwise_progress (hgood : Good c ws) (h : Linked m ws m') :
    ws.Pairwise fun a b => c.Progress a.after b.before := by
  induction h with
  | nil => exact .nil
  | cons _ _ _ hrest ih =>
    obtain ⟨hw, hgood⟩ := List.forall_mem_cons.1 hgood
    exact List.pairwise_cons.2 ⟨hrest.progress_of_mem hw.2.2.sound hgood, ih hgood⟩

/-- A version that is gone after a commit is never there again. -/
theorem pairwise_replaced (hgood : Good c ws) (h : Linked m ws m') :
    ws.Pairwise fun a b => ∀ id s, c.stored? a.before.table id = some s →
      c.stored? a.after.table id ≠ some s → c.stored? b.before.table id ≠ some s := by
  refine (h.pairwise_progress hgood).imp_of_mem fun {a b} ha _ hab id s hs hgone hagain => ?_
  obtain ⟨hsound, heffective, _⟩ := hgood a ha
  rcases hab.kept hagain with hkept | hlt
  · exact hgone hkept
  -- what is stored again would be newer than the commit, and the version is not
  · have hle : s.version ≤ a.version :=
      Nat.le_trans (hsound.dated hs) (Nat.le_of_lt heffective.version_lt)
    exact absurd hlt (Nat.not_lt_of_ge hle)

theorem stored?_eq_of_untouched
    (hsame : ∀ w ∈ ws, c.stored? w.after.table id = c.stored? w.before.table id)
    (h : Linked m ws m') : c.stored? m'.table id = c.stored? m.table id := by
  induction h with
  | nil htable _ => rw [htable]
  | cons htable _ _ _ ih =>
    obtain ⟨hw, hrest⟩ := List.forall_mem_cons.1 hsame
    rw [ih hrest, hw, htable]

/-- A document that is gone was taken out by one of the commits. -/
theorem exists_removal (h : Linked m ws m') (hm : c.stored? m.table id ≠ none)
    (hm' : c.stored? m'.table id = none) :
    ∃ w ∈ ws, c.stored? w.before.table id ≠ none ∧ c.stored? w.after.table id = none := by
  induction h with
  | nil htable _ =>
    rw [htable] at hm'
    exact absurd hm' hm
  -- either this commit takes the document out, or one of the later ones does
  | @cons m m' w ws htable _ _ _ ih =>
    rw [← htable] at hm
    by_cases hw : c.stored? w.after.table id = none
    · exact ⟨w, List.mem_cons_self, hm, hw⟩
    · obtain ⟨w', hmem, hw'⟩ := ih hw hm'
      exact ⟨w', List.mem_cons_of_mem _ hmem, hw'⟩

end Linked

/-- A commit that takes a document out is one of a delete. -/
theorem Purpose.Allows.of_removal {c : Collection} {p : Purpose} {w : Commit} {id : String}
    (h : p.Allows c w) (hbefore : c.stored? w.before.table id ≠ none)
    (hafter : c.stored? w.after.table id = none) :
    ∃ q old result, p = .change .delete q ∧ c.Changes .delete q id old result w := by
  cases p with
  | read => cases h
  | insert =>
    obtain ⟨docs, hinserts⟩ := h
    rw [hinserts.after] at hafter
    unfold withNew at hafter
    split at hafter
    · cases hafter
    · exact absurd hafter hbefore
  | change ch q =>
    obtain ⟨id', old, result, hchanges⟩ := h
    rw [hchanges.after] at hafter
    by_cases hid : id = id'
    · subst hid
      rw [Function.update_self] at hafter
      cases ch with
      | update u => cases hafter
      | delete => exact ⟨q, old, result, rfl, hchanges⟩
    · rw [Function.update_of_ne hid] at hafter
      exact absurd hafter hbefore

/-- The document that is inserted is not there before and is there after the commit. -/
theorem Collection.Inserts.stored?_of_mem {c : Collection} {docs : List (String × Document)}
    {w : Commit} {id : String} (h : c.Inserts docs w) (hid : id ∈ docs.map Prod.fst) :
    c.stored? w.before.table id = none ∧ c.stored? w.after.table id ≠ none := by
  obtain ⟨p, hp, rfl⟩ := List.mem_map.1 hid
  refine ⟨h.free p hp, fun hnone => ?_⟩
  rw [h.after] at hnone
  unfold withNew at hnone
  split at hnone
  · cases hnone
  · rename_i hlookup
    exact absurd (List.lookup_eq_none_iff.1 hlookup p hp) (by simp)

namespace System

/-- Changes of a collection are atomic in a run from `s₀` to `s`. -/
structure Atomic (c : Collection) (s₀ : System) (log : Log) (s : System) : Prop where
  /-- The commits of all clients follow each other, and nothing else changes an entry. -/
  linked : Linked s₀.database.memory log.commits s.database.memory
  /-- A commit changes a document that matches the query as it is stored just before the commit, or
  inserts documents that are not there. -/
  allowed : ∀ i w, (i, w) ∈ log →
    ∃ client, s.clients[i]? = some client ∧ client.operation.purpose.Allows c w
  /-- What a client is told stands for its commits. -/
  replies : ∀ (i : Nat) (op : Operation) (reply : Reply),
    s.clients[i]? = some ⟨op, .done (.ok reply)⟩ → reply.Explains c op.purpose (log.ofClient i)
  /-- A version that one commit replaces or deletes is not there for a later one. -/
  once : log.commits.Pairwise fun a b => ∀ id s, c.stored? a.before.table id = some s →
    c.stored? a.after.table id ≠ some s → c.stored? b.before.table id ≠ some s
  /-- What a commit leaves under an identity is there for the next one that has to do with it. -/
  seen : ∀ l₁ a mid b l₂ id, log.commits = l₁ ++ a :: (mid ++ b :: l₂) →
    (∀ w ∈ mid, c.stored? w.after.table id = c.stored? w.before.table id) →
    c.stored? b.before.table id = c.stored? a.after.table id
  /-- Between two inserts of an identity there is a delete of it. -/
  deleted : ∀ l₁ i a mid j b l₂ docs docs' id, log = l₁ ++ (i, a) :: (mid ++ (j, b) :: l₂) →
    c.Inserts docs a → c.Inserts docs' b → id ∈ docs.map Prod.fst → id ∈ docs'.map Prod.fst →
    ∃ k w, (k, w) ∈ mid ∧ ∃ client q old result, s.clients[k]? = some client ∧
      client.operation.purpose = .change .delete q ∧ c.Changes .delete q id old result w

/-- Changes are atomic, however the requests of the clients interleave. -/
theorem changes_atomic {name : String} {options : CollectionOptions}
    {defaults : CollectionDefaults} {c : Collection}
    (hdefine : Collection.define name options defaults = .ok c) {s₀ s : System} {log : Log}
    (h₀ : Initial c s₀) (h : Run c s₀ log s) : Atomic c s₀ log s := by
  have hc := Collection.wellIndexed_of_define hdefine
  have hinv := h.invariant hc h₀
  have hgood : Linked.Good c log.commits := by
    intro w hw
    obtain ⟨p, hp, rfl⟩ := List.mem_map.1 hw
    obtain ⟨hsound, heffective, client, _, hallows⟩ := hinv.logged p.1 p.2 hp
    exact ⟨hsound, heffective, hallows.progress hc _ hsound heffective⟩
  refine ⟨hinv.linked, fun i w hw => (hinv.logged i w hw).2.2, ?_,
    hinv.linked.pairwise_replaced hgood, ?_, ?_⟩
  · intro i op reply hi
    exact hinv.clients i _ hi reply rfl
  · intro l₁ a mid b l₂ id hlog hsame
    obtain ⟨m₁, hmid, htable, _⟩ := (hlog ▸ hinv.linked).between
    rw [htable]
    exact hmid.stored?_eq_of_untouched hsame
  · intro l₁ i a mid j b l₂ docs docs' id hlog ha hb hida hidb
    have hlinked : Linked s₀.database.memory
        (Log.commits l₁ ++ a :: (Log.commits mid ++ b :: Log.commits l₂)) s.database.memory := by
      simpa [Log.commits, hlog] using hinv.linked
    obtain ⟨m₁, hmid, htable, _⟩ := hlinked.between
    -- the identity is free again before the second insert
    have hgone := (hb.stored?_of_mem hidb).1
    rw [htable] at hgone
    obtain ⟨w, hw, hbefore, hafter⟩ := hmid.exists_removal (ha.stored?_of_mem hida).2 hgone
    obtain ⟨⟨k, w⟩, hkw, rfl⟩ := List.mem_map.1 hw
    obtain ⟨_, _, client, hk, hallows⟩ := hinv.logged k w (by rw [hlog]; simp [hkw])
    obtain ⟨q, old, result, hpurpose, hchanges⟩ := hallows.of_removal hbefore hafter
    exact ⟨k, w, hkw, client, q, old, result, hk, hpurpose, hchanges⟩

open Sample in
/-- Two clients sell the same article.  The one that read it first comes too late, reads it again and
sells the next one. -/
theorem changes_atomic_of_sales : ∃ log s, Run articles start log s ∧
    log.map Prod.fst = [0, 2, 1] ∧
    ((articles.contents s.database.memory.table "a").bind (·.get? "stock")).bind
      Value.asInteger? = some 5 ∧
    Atomic articles start log s := by
  let moves := stocking ++ [.start (.updateOne .all sell) 9, .request 1, .request 1] ++
    [.start (.updateOne (inStock 7) sell) 9, .request 2, .request 2, .request 2] ++
    [.request 1, .request 1, .request 1]
  exact ⟨_, _, ⟨moves, rfl⟩, by decide +kernel, by decide +kernel,
    changes_atomic define_articles initial_start ⟨moves, rfl⟩⟩

end System

end DocumentStore

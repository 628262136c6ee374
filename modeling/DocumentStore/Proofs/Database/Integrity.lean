import DocumentStore.Proofs.Collection.Complaints
import DocumentStore.Proofs.Collection.Cursors
import DocumentStore.Proofs.Database.Atomicity

/-!
# Nothing gets past the checks

Whatever clients do, every entry under the name of a collection holds a document that passes all its
checks and whose identity is the one in the key.  So no find, update or delete ever comes upon an entry
that it cannot use.
-/

namespace DocumentStore

inductive Error.BlamesEntry : Error → Prop where
  | corrupt (key : String) : BlamesEntry (.corruptEntry key)
  | identity : BlamesEntry .identityUnusable

theorem Error.Complains.not_blamesEntry {e : Error} (h : e.Complains) : ¬ e.BlamesEntry := by
  intro hblames
  cases hblames <;> cases h

/-- A function of the caller ends in the error: the validator of the collection, or the function of an
update on a document that the collection takes and that matches the query. -/
def Purpose.CallerRaises (c : Collection) (e : Error) : Purpose → Prop
  | read | change .delete _ => False
  | insert => ∃ d, c.options.validate d = .error e
  | change (.update u) q => (∃ d, c.options.validate d = .error e) ∨
    ∃ f d, u = .document f ∧ c.Persistable d ∧ q.accepts d = true ∧ f d = .error e

namespace Collection

variable {c : Collection} {e : Error}

theorem StoreFault.not_blamesEntry (h : c.StoreFault e) : ¬ e.BlamesEntry := by
  intro hblames
  cases hblames <;> cases h

/-- Of all that an operation can fail for, only the caller's functions can blame an entry. -/
theorem callerRaises_of_fault {op : Operation} (h : op.Fault c e) (hblames : e.BlamesEntry) :
    op.purpose.CallerRaises c e := by
  have hvalidator : ∀ d, c.checkDocument d = .error e → c.options.validate d = .error e := by
    intro d hcheck
    exact (complains_or_invalid hcheck).resolve_left fun hc => hc.not_blamesEntry hblames
  unfold Operation.Fault at h
  cases hpurpose : op.purpose with
  | read =>
    rw [hpurpose] at h
    exact absurd hblames (StoreFault.not_blamesEntry h)
  | insert =>
    rw [hpurpose] at h
    cases h with
    | store hstore => exact absurd hblames hstore.not_blamesEntry
    | refused hcheck => exact ⟨_, hvalidator _ hcheck⟩
    | repeated | stored | collision => cases hblames
  | change change q =>
    rw [hpurpose] at h
    cases h with
    | store hstore => exact absurd hblames hstore.not_blamesEntry
    | policy hpolicy =>
      unfold RetryPolicy.check at hpolicy
      split at hpolicy
      · cases hpolicy
        cases hblames
      · cases hpolicy
    | exhausted => cases hblames
    | refused hdocument haccepts hbatch =>
      cases change with
      | delete => cases hbatch
      | update u =>
        -- a transform raised it, or the validator on the updated document; the batch itself cannot
        rcases Except.bind_eq_error_iff.1 hbatch with hupdate | ⟨new, _, hbatch⟩
        · rcases Update.complains_or_raised hupdate with hcomplains | ⟨f, hf, hraised⟩
          · exact absurd hblames hcomplains.not_blamesEntry
          · exact .inr ⟨f, _, hf, hdocument, haccepts, hraised⟩
        · rcases Except.bind_eq_error_iff.1 hbatch with hcheck | ⟨_, _, hbatch⟩
          · exact .inl ⟨new, hvalidator new hcheck⟩
          · cases hbatch

end Collection

/-! ## Cursors that read next to other clients -/

variable {α : Type} {c : Collection} {P : Commit → Prop} {v : Standpoint} {m m' : Memory}

def DocumentStream.Supplied (c : Collection) (m : Memory) : DocumentStream → Prop
  | streaming candidates => c.Supplies m candidates.source
  | buffered _ => True

theorem DocumentStream.next_reads (stream : DocumentStream) (fuel : Nat) (hv : c.Sound v.memory)
    (hs : stream.Supplied c v.memory) :
    (stream.next fuel).Reads c P (fun r m =>
      (∀ e, r.1 = some (.error e) → c.StoreFault e) ∧ r.2.Supplied c m) v := by
  cases stream with
  | streaming candidates =>
    refine Program.Reads.bind ((Candidates.next_reads candidates fuel hv hs).and
      (Candidates.next_faults candidates fuel hv hs)) fun r v' hv' hr => ?_
    obtain ⟨item, rest⟩ := r
    obtain ⟨⟨_, hsupplies, _⟩, hfault⟩ := hr
    refine .pure hv'.sound ⟨fun e he => ?_, hsupplies⟩
    rcases item with _ | _ | candidate
    · cases he
    · cases he
      exact hfault e rfl
    · cases he
  | buffered ds =>
    cases ds with
    | nil => exact .pure hv ⟨fun e he => (by cases he), trivial⟩
    | cons d rest => exact .pure hv ⟨fun e he => (by cases he), trivial⟩

theorem DocumentStream.collect_reads (stream : DocumentStream) (fuel : Nat)
    (hv : c.Sound v.memory) (hs : stream.Supplied c v.memory) :
    (stream.collect fuel).Reads c P (fun items _ => ∀ e, .error e ∈ items → c.StoreFault e) v := by
  induction fuel generalizing stream v with
  | zero => trivial
  | succ fuel ih =>
    refine Program.Reads.bind (next_reads stream _ hv hs) fun r v' hv' hr => ?_
    obtain ⟨item, rest⟩ := r
    obtain ⟨hfault, hsupplied⟩ := hr
    cases item with
    | none => exact .pure hv'.sound fun _ he => by cases he
    | some item =>
      refine Program.Reads.bind (ih rest hv'.sound hsupplied) fun items v'' hv'' hitems => ?_
      refine .pure hv''.sound fun e he => ?_
      rcases List.mem_cons.1 he with rfl | he
      · exact hfault e rfl
      · exact hitems e he

namespace Cursor

variable (plan : Plan) (ops : List CursorOp) (fuel : Nat) (hv : c.Sound v.memory)

include hv

theorem iterate_reads : (iterate ⟨c, plan, ops⟩ fuel).Reads c P
    (fun items _ => ∀ e, .error e ∈ items → c.StoreFault e) v := by
  have hstream : (DocumentStream.ofCursor ⟨c, plan, ops⟩ fuel).Reads c P
      (fun stream m => stream.Supplied c m) v := by
    unfold DocumentStream.ofCursor
    split
    · exact .bind (Candidates.ofPlan_reads hv) fun _ _ hv' hr => .pure hv'.sound hr.1
    · exact .bind (getMany_reads plan ops fuel hv) fun _ _ hv' _ => .pure hv'.sound trivial
  exact .bind hstream fun stream v' hv' hs =>
    .lift (DocumentStream.collect_reads stream fuel hv'.sound hs)

theorem iterate_fails : (iterate ⟨c, plan, ops⟩ fuel).FailsWith c c.StoreFault v := by
  refine .bindAny ?_ fun stream _ => .lift _
  unfold DocumentStream.ofCursor
  split
  · exact .bindAny Candidates.ofPlan_fails fun _ _ => .pure
  · exact .bindAny (getMany_fails plan ops fuel hv) fun _ _ => .pure

end Cursor

namespace System

variable {s s' s₀ : System} {log log' : Log}

/-- A program runs next to the clients of a system and ends with a result.  Before each of its
requests the clients make some moves. -/
inductive Beside (c : Collection) : System → Program α → α → Prop where
  | done (s : System) (a : α) : Beside c s (.done a) a
  | ask {s s' : System} {log : Log} {r : Request} {next : r.Answer → Program α} {a : α}
    (hrun : Run c s log s')
    (hnext : Beside c ⟨(Database.answer r s'.database).2, s'.clients⟩
      (next (Database.answer r s'.database).1) a) : Beside c s (.ask r next) a

/-- A program that makes no commits ends as it must. -/
theorem Beside.upholds {m₀ : Memory} (hc : c.WellIndexed) {p : Program α} {a : α}
    {post : α → Standpoint → Prop} {ws : List Commit} (h : Beside c s p a)
    (hinv : Invariant c m₀ log s)
    (hp : p.Upholds (c.sharing fun _ => False) post ⟨s.database, ws⟩) : ∃ v, post a v := by
  induction h generalizing log ws with
  | done s a => exact ⟨_, hp⟩
  | @ask s s' log' r next a hrun hnext ih =>
    have hinv' := hinv.run hc hrun
    obtain ⟨hadmits, hrest⟩ := hp ⟨s'.database, ws⟩ ⟨hinv.progress hc hrun, rfl⟩
    have hquiet : s'.database.effect? r = none := Option.eq_none_iff_forall_ne_some.2 hadmits
    obtain ⟨htable, hversion⟩ := Database.memory_of_no_effect hquiet
    exact ih (hinv'.of_eq _ htable hversion) hrest

/-- However a cursor is asked for its documents next to other clients, it does not end in the error. -/
structure Spares (c : Collection) (s : System) (fuel : Nat) (cursor : Cursor) (e : Error) : Prop where
  getMany : ¬ Beside c s (cursor.getMany fuel) (.error e)
  getOne : ¬ Beside c s (cursor.getOne fuel) (.error e)
  count : ¬ Beside c s (cursor.count fuel) (.error e)
  iterate : ∀ r, Beside c s (cursor.iterate fuel) r → r ≠ .error e ∧
    ∀ items, r = .ok items → .error e ∉ items

theorem Invariant.spares {m₀ : Memory} (hc : c.WellIndexed) (hinv : Invariant c m₀ log s)
    (plan : Plan) (ops : List CursorOp) (fuel : Nat) {e : Error} (he : ¬ c.StoreFault e) :
    Spares c s fuel ⟨c, plan, ops⟩ e := by
  have hsound : c.Sound (Standpoint.memory ⟨s.database, []⟩) := hinv.sound
  -- an action that reads and fails only for the store does not end in the error
  have hspared : ∀ {β : Type} {p : Action β} {Q : β → Memory → Prop} {r : Except Error β},
      p.Reads c (fun _ => False) Q ⟨s.database, []⟩ →
      p.FailsWith c c.StoreFault ⟨s.database, []⟩ → Beside c s p r →
      r ≠ .error e ∧ ∃ m, ∀ a, r = .ok a → Q a m := by
    intro β p Q r hreads hfails hbeside
    obtain ⟨v, ⟨_, hok⟩, herror⟩ := hbeside.upholds hc hinv (Program.Upholds.and hreads hfails)
    exact ⟨fun hr => he (herror e hr), v.memory, hok⟩
  refine ⟨fun h => ?_, fun h => ?_, fun h => ?_, fun r h => ?_⟩
  · exact (hspared (Cursor.getMany_reads plan ops fuel hsound)
      (Cursor.getMany_fails plan ops fuel hsound) h).1 rfl
  · have hlimited : Cursor.withOp ⟨c, plan, ops⟩ (.limit 1) = ⟨c, plan, ops ++ [.limit 1]⟩ := rfl
    unfold Cursor.getOne at h
    rw [hlimited] at h
    refine (hspared (Q := fun _ _ => True) ?_ ?_ h).1 rfl
    · exact .bind (Cursor.getMany_reads plan _ fuel hsound) fun _ _ hv' _ =>
        .pure hv'.sound trivial
    · exact .bindAny (Cursor.getMany_fails plan _ fuel hsound) fun _ _ => .pure
  · refine (hspared (Q := fun _ _ => True) ?_ ?_ h).1 rfl
    · exact .bind (Cursor.getMany_reads plan ops fuel hsound) fun _ _ hv' _ =>
        .pure hv'.sound trivial
    · exact .bindAny (Cursor.getMany_fails plan ops fuel hsound) fun _ _ => .pure
  · obtain ⟨hne, _, hitems⟩ := hspared (Cursor.iterate_reads plan ops fuel hsound)
      (Cursor.iterate_fails plan ops fuel hsound) h
    exact ⟨hne, fun items hr hmem => he (hitems items hr e hmem)⟩

/-- Nothing got past the checks of a collection in a run that led to `s`. -/
structure Intact (c : Collection) (s : System) : Prop where
  /-- Every entry holds a document that passes all checks, under a key with its identity. -/
  entries : ∀ e ∈ s.database.memory.table.entries, e.key.parts.head? = some (.string c.name) →
    ∃ (id : String) (d : Document), c.Owns id e.key ∧ e.value = .map d ∧
      d.identity? = some (.string id) ∧ c.Persistable d
  /-- Whatever happens later, a stored document has its identity until it is deleted. -/
  identities : ∀ log s', Run c s log s' → ∀ id d version,
    c.stored? s.database.memory.table id = some ⟨d, version⟩ →
    (∃ d' version', c.stored? s'.database.memory.table id = some ⟨d', version'⟩ ∧
      d'.identity? = d.identity?) ∨
    ∃ i w client q, (i, w) ∈ log ∧ s'.clients[i]? = some client ∧
      client.operation.purpose = .change .delete q ∧
      c.stored? w.before.table id ≠ none ∧ c.stored? w.after.table id = none
  /-- No client ends in an error that blames an entry, unless a function of the caller raises it. -/
  errors : ∀ client ∈ s.clients, ∀ e, client.program = .done (.error e) → e.BlamesEntry →
    client.operation.purpose.CallerRaises c e
  /-- Nor does a cursor, however it is asked for its documents. -/
  cursors : ∀ (q : Query) (ops : List CursorOp) (fuel : Nat) (e : Error), e.BlamesEntry →
    Spares c s fuel (ops.foldl Cursor.withOp (c.find q)) e

/-- Whatever clients do, and whatever functions they update with, nothing gets past the checks. -/
theorem checks_never_bypassed {name : String} {options : CollectionOptions}
    {defaults : CollectionDefaults}
    (hdefine : Collection.define name options defaults = .ok c) (h₀ : Initial c s₀)
    (h : Run c s₀ log s) : Intact c s := by
  have hc := Collection.wellIndexed_of_define hdefine
  have hinv := h.invariant hc h₀
  have hconsistent := hinv.sound.consistent
  refine ⟨fun e he hhead => ?_, fun log' s' hrun id d version hstored => ?_,
    fun client hclient e hdone hblames => ?_, fun q ops fuel e hblames => ?_⟩
  · obtain ⟨id, s, hs, hes⟩ := hinv.sound.stored_of_mem he hhead
    obtain ⟨hkey, hvalue, _⟩ := Collection.mem_entriesOf.1 hes
    exact ⟨id, s.document, Collection.owns_of_mem_keysOf hkey, hvalue, hconsistent.identity hs,
      Collection.checkDocument_eq_ok_iff.1 (hconsistent.checked hs)⟩
  · have hinv' := hinv.run hc hrun
    cases hlater : c.stored? s'.database.memory.table id with
    | some s'' =>
      have hid := hinv'.sound.consistent.identity hlater
      exact .inl ⟨s''.document, s''.version, rfl, hid.trans (hconsistent.identity hstored).symm⟩
    | none =>
      -- one of the commits in between took it out, and only a delete does that
      have hthere : c.stored? s.database.memory.table id ≠ none := by
        rw [hstored]
        exact Option.some_ne_none _
      obtain ⟨w, hw, hbefore, hafter⟩ := (hinv.linked_run hc hrun).exists_removal hthere hlater
      obtain ⟨⟨i, w⟩, hmem, rfl⟩ := List.mem_map.1 hw
      obtain ⟨_, _, client, hi, hallows⟩ := hinv'.logged i w (List.mem_append_right _ hmem)
      obtain ⟨q, _, _, hpurpose, _⟩ := hallows.of_removal hbefore hafter
      exact .inr ⟨i, w, client, q, hmem, hi, hpurpose, hbefore, hafter⟩
  · obtain ⟨i, hi⟩ := List.getElem?_of_mem hclient
    have hfails := (hinv.behaviour i client hi).fails
    rw [hdone] at hfails
    exact Collection.callerRaises_of_fault (hfails e rfl) hblames
  · rw [Cursor.foldl_withOp]
    exact hinv.spares hc _ _ fuel fun hstore => hstore.not_blamesEntry hblames

end System

/-! ## Sales with conflicts and failures -/

namespace Sample

def misname : Update := .document fun d => d.put "in.stock" (.integer 1)

def rename : Update := Update.none.withChange "_id" (.set (.string "c"))

/-- An article is sold at the second attempt, and two updates fail. -/
def sales : List Move := stocking ++
  [.contend 1, .start (.updateOne .all sell) 9, .request 1, .request 1, .request 1, .request 1,
    .request 1, .start (.updateOne .all misname) 9, .request 2, .request 2,
    .start (.updateOne .all rename) 9, .request 3, .request 3]

def failures (s : System) : List String :=
  s.clients.filterMap fun client =>
    match client.program with
    | .done (.error e) => some e.message
    | _ => none

end Sample

open Sample in
/-- After a conflict, a retry and two updates that fail, the articles are intact. -/
theorem System.checks_never_bypassed_in_sales : ∃ log s, Run articles start log s ∧
    log.map Prod.fst = [0, 1] ∧
    failures s = ["Field name 'in.stock' must not contain '.'",
      "Document _id cannot be changed by an update"] ∧
    s.database.memory.table.size = 4 ∧ Intact articles s :=
  ⟨_, _, ⟨sales, rfl⟩, by decide +kernel, by decide +kernel, by decide +kernel,
    checks_never_bypassed define_articles initial_start ⟨sales, rfl⟩⟩

end DocumentStore

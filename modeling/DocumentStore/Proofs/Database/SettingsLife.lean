import DocumentStore.Proofs.Database.Admission
import DocumentStore.Proofs.Database.SettingErrors
import Mathlib.Data.List.TakeWhile

/-!
# The life of settings

Settings are given to a builder one after another, frozen when the database is opened, and the same ever
after.  The first setter with an invalid value decides what opening gives; if there is none, the last value
given for each setting counts.  All settings that come about this way are valid, so that the operations of
the collections opened with them do not fail for them.
-/

namespace DocumentStore

variable {σ : Type}

/-! ## Values of settings -/

namespace Setter

def problem? : Setter σ → Option Error
  | store _ | ids _ => none
  | updateRetry p | deleteRetry p => if p = .untilSuccess 0 then some .noAttempts else none
  | scanBatch n => if n = 0 then some .zeroScanBatch else none

def store? : Setter σ → Option σ
  | store st => some st
  | _ => none

def ids? : Setter σ → Option IdSource
  | ids source => some source
  | _ => none

def updateRetry? : Setter σ → Option RetryPolicy
  | updateRetry p => some p
  | _ => none

def deleteRetry? : Setter σ → Option RetryPolicy
  | deleteRetry p => some p
  | _ => none

def scanBatch? : Setter σ → Option Nat
  | scanBatch n => some n
  | _ => none

end Setter

namespace Settings

/-- The settings with the last value given for each. -/
def withLast (s : Settings σ) (setters : List (Setter σ)) : Settings σ where
  store := (setters.filterMap Setter.store?).getLast?.getD s.store
  ids := (setters.filterMap Setter.ids?).getLast?.getD s.ids
  updateRetry := (setters.filterMap Setter.updateRetry?).getLast?.getD s.updateRetry
  deleteRetry := (setters.filterMap Setter.deleteRetry?).getLast?.getD s.deleteRetry
  scanBatch := (setters.filterMap Setter.scanBatch?).getLast?.getD s.scanBatch
  frozen := s.frozen

variable {s s' : Settings σ} {setter : Setter σ}

theorem guard_of_not_frozen (h : s.frozen = false) (setting : Setting) : s.guard setting = .ok () := by
  rw [guard, if_neg (by rw [h]; decide)]

/-- A setter fails with what is wrong with its value, or sets it. -/
theorem apply_eq (h : s.frozen = false) (setter : Setter σ) :
    setter.apply s = setter.problem?.elim (.ok (s.withLast [setter])) .error := by
  cases setter with
  | store st =>
    rw [Setter.apply, setStore, guard_of_not_frozen h]
    rfl
  | ids source =>
    rw [Setter.apply, setIds, guard_of_not_frozen h]
    rfl
  | updateRetry p =>
    rw [Setter.apply, setUpdateRetry, guard_of_not_frozen h, RetryPolicy.check, Setter.problem?]
    split <;> rfl
  | deleteRetry p =>
    rw [Setter.apply, setDeleteRetry, guard_of_not_frozen h, RetryPolicy.check, Setter.problem?]
    split <;> rfl
  | scanBatch n =>
    rw [Setter.apply, setScanBatch, guard_of_not_frozen h, Setter.problem?]
    split <;> rfl

theorem withLast_cons (s : Settings σ) (setter : Setter σ) (setters : List (Setter σ)) :
    s.withLast (setter :: setters) = (s.withLast [setter]).withLast setters := by
  cases setter <;>
    simp [withLast, Setter.store?, Setter.ids?, Setter.updateRetry?, Setter.deleteRetry?,
      Setter.scanBatch?, List.getLast?_cons]

/-- Setters one after another: the error of each that fails, and the settings after all of them. -/
def tryAll (s : Settings σ) : List (Setter σ) → List (Option Error) × Settings σ
  | [] => ([], s)
  | setter :: rest =>
    match setter.apply s with
    | .ok s' => (none :: (s'.tryAll rest).1, (s'.tryAll rest).2)
    | .error e => (some e :: (s.tryAll rest).1, (s.tryAll rest).2)

/-- Nothing can be set any more in frozen settings. -/
theorem tryAll_of_frozen (h : s.frozen = true) (setters : List (Setter σ)) :
    s.tryAll setters = (setters.map fun setter => some (.frozen setter.setting), s) := by
  induction setters with
  | nil => rfl
  | cons setter rest ih => rw [tryAll, apply_eq_frozen h setter, ih, List.map_cons]

/-- Settings that come about: those of a new builder or of no database yet, those after a setter, those of
an opened database, and those of a database that has drawn an identity or whose store has changed. -/
inductive Reachable : Settings σ → Prop where
  | initial (store : σ) (ids : IdSource) : Reachable (.initial store ids)
  | set {s s' : Settings σ} (setter : Setter σ) (hs : Reachable s) (h : setter.apply s = .ok s') :
    Reachable s'
  | freeze {s s' : Settings σ} {closed : Bool} (hs : Reachable s) (h : s.freeze closed = .ok s') :
    Reachable s'
  | nextId {s : Settings σ} (hs : Reachable s) : Reachable s.nextId.2
  | store {s : Settings σ} (store : σ) (hs : Reachable s) : Reachable (s.withStore store)

theorem Reachable.valid (h : s.Reachable) : s.collectionDefaults.Valid := by
  induction h with
  | initial store ids => exact initial_valid store ids
  | set setter _ h ih => exact apply_valid ih h
  | freeze _ h ih =>
    unfold Settings.freeze at h
    split at h
    · cases h
    · cases h
      exact ⟨ih.scanBatch_pos, ih.updateRetry, ih.deleteRetry⟩
  | nextId _ ih => exact ⟨ih.scanBatch_pos, ih.updateRetry, ih.deleteRetry⟩
  | store st _ ih => exact ⟨ih.scanBatch_pos, ih.updateRetry, ih.deleteRetry⟩

end Settings

/-! ## Builders -/

namespace Builder

theorem apply_of_ok {s s' : Settings σ} {set : Settings σ → Except Error (Settings σ)}
    (h : set s = .ok s') : apply ⟨s, none⟩ set = ⟨s', none⟩ := by
  simp only [apply, h]

theorem apply_of_error {s : Settings σ} {set : Settings σ → Except Error (Settings σ)} {e : Error}
    (h : set s = .error e) : apply ⟨s, none⟩ set = ⟨s, some e⟩ := by
  simp only [apply, h]

theorem applyAll_of_failure {b : Builder σ} {e : Error} (h : b.failure = some e)
    (setters : List (Setter σ)) : b.applyAll setters = b := by
  induction setters with
  | nil => rfl
  | cons setter rest ih =>
    have hsame : b.apply setter.apply = b := by
      unfold apply
      rw [h]
    rw [applyAll, List.foldl_cons, hsame]
    exact ih

/-- The settings are those of the setters before the first invalid one, whose error is kept. -/
theorem applyAll_eq {s : Settings σ} (h : s.frozen = false) (setters : List (Setter σ)) :
    applyAll ⟨s, none⟩ setters =
      ⟨s.withLast (setters.takeWhile (·.problem?.isNone)), setters.findSome? Setter.problem?⟩ := by
  induction setters generalizing s with
  | nil => rfl
  | cons setter rest ih =>
    rw [applyAll, List.foldl_cons]
    have happly := Settings.apply_eq h setter
    cases hproblem : setter.problem? with
    | some e =>
      rw [hproblem] at happly
      rw [apply_of_error happly,
        List.takeWhile_cons_of_neg (by simp [hproblem]), List.findSome?_cons, hproblem]
      exact applyAll_of_failure rfl rest
    | none =>
      rw [hproblem] at happly
      rw [apply_of_ok happly,
        List.takeWhile_cons_of_pos (by simp [hproblem]), List.findSome?_cons, hproblem,
        Settings.withLast_cons s setter (rest.takeWhile _)]
      exact ih h

theorem applyAll_of_no_problem {s : Settings σ} (h : s.frozen = false) {setters : List (Setter σ)}
    (hnone : setters.findSome? Setter.problem? = none) :
    applyAll ⟨s, none⟩ setters = ⟨s.withLast setters, none⟩ := by
  have hall : setters.takeWhile (·.problem?.isNone) = setters :=
    List.takeWhile_eq_self_iff.2 fun setter hsetter =>
      Option.isNone_iff_eq_none.2 (List.findSome?_eq_none_iff.1 hnone setter hsetter)
  rw [applyAll_eq h, hall, hnone]

end Builder

/-! ## Databases -/

namespace Database

variable [KeyValueStore σ]

/-- A database and what becomes of it: after any request of an operation, and any change of its store. -/
inductive Later (db : Database σ) : Database σ → Prop where
  | now : Later db db
  | answer {db' : Database σ} (r : Request) (h : Later db db') : Later db (answer r db').2
  | store {db' : Database σ} (store : σ) (h : Later db db') : Later db (db'.withStore store)

theorem answer_registry (r : Request) {db : Database σ} (h : db.registry.Sound)
    (hdefaults : db.settings.collectionDefaults.Valid) : (answer r db).2.registry.Sound := by
  cases r with
  | register name options =>
    unfold answer
    dsimp only
    split
    · rename_i hregister
      exact (h.register hdefaults hregister).sound
    · exact h
  | unregister name => exact h.unregister name
  | _ => exact h

theorem opened_of_register {db : Database σ} (h : db.registry.Sound)
    (hdefaults : db.settings.collectionDefaults.Valid) {name : String}
    {options : Option CollectionOptions} {c : Collection}
    (hc : (answer (.register name options) db).1 = (.ok c : Except Error Collection)) : c.Opened := by
  unfold answer at hc
  dsimp only at hc
  split at hc
  · rename_i hregister
    cases hc
    exact (h.register hdefaults hregister).opened
  · cases hc

/-- The settings of a database stay as they were when it was opened. -/
theorem Later.settled {db db' : Database σ} (h : db.Later db')
    (hsound : db.registry.Sound) (hvalid : db.settings.collectionDefaults.Valid) :
    db'.settings.frozen = db.settings.frozen ∧
      db'.settings.collectionDefaults = db.settings.collectionDefaults ∧ db'.registry.Sound := by
  induction h with
  | now => exact ⟨rfl, rfl, hsound⟩
  | @answer db' r _ ih =>
    obtain ⟨hfrozen, hdefaults, hsound⟩ := ih
    obtain ⟨hfrozen', hdefaults'⟩ := answer_settings r db'
    exact ⟨hfrozen'.trans hfrozen, hdefaults'.trans hdefaults,
      answer_registry r hsound (hdefaults ▸ hvalid)⟩
  | store st _ ih => exact ih

theorem ofBuilder_eq (b : Builder σ) :
    ofBuilder b = (b.build KeyValueStore.isClosed).map fun settings => ⟨settings, .empty⟩ := by
  unfold ofBuilder
  cases b.build KeyValueStore.isClosed <;> rfl

theorem ofBuilder_of_failure {b : Builder σ} {e : Error} (h : b.failure = some e) :
    ofBuilder b = .error e := by
  rw [ofBuilder_eq, Builder.build, h]
  rfl

theorem ofBuilder_of_closed {b : Builder σ} (h : b.failure = none)
    (hclosed : KeyValueStore.isClosed b.settings.store = true) :
    ofBuilder b = .error .openOnClosedStore := by
  rw [ofBuilder_eq, Builder.build, h]
  show Except.map _ (b.settings.freeze _) = _
  rw [hclosed]
  rfl

theorem ofBuilder_of_open {b : Builder σ} (h : b.failure = none)
    (hopen : KeyValueStore.isClosed b.settings.store = false) :
    ofBuilder b = .ok ⟨{ b.settings with frozen := true }, .empty⟩ := by
  rw [ofBuilder_eq, Builder.build, h]
  show Except.map _ (b.settings.freeze _) = _
  rw [hopen]
  rfl

/-- A store in memory does not ask for a page that holds nothing. -/
theorem answer_spares_zeroPage (r : Request) (db : Database Memory) :
    r.Spares .zeroPage (answer r db).1 := by
  cases r with
  | get key =>
    show (db.settings.store.get key).1 ≠ _
    unfold Memory.get
    split
    · nofun
    · split <;> nofun
  | scan base after limit =>
    show (db.settings.store.scan base after limit).1 ≠ _
    unfold Memory.scan
    split <;> nofun
  | commit b =>
    show (db.settings.store.commit b).1 ≠ _
    unfold Memory.commit
    split
    · nofun
    · split <;> nofun
  | register name options =>
    unfold answer
    dsimp only
    split
    · nofun
    · rename_i hregister
      intro he
      cases he
      cases Registry.kind_of_register hregister
  | isClosed | freshId | unregister => trivial

end Database

/-- A collection whose operations never fail for a setting.  With any answers of the store but the errors
themselves, and unless the caller's own functions report them, no page is asked to hold nothing, whatever
bound a cursor has, and no policy is without attempts but that of a call. -/
structure Collection.Unhindered (c : Collection) : Prop where
  cursors : ∀ cursor : Cursor, cursor.collection = c → ∀ fuel,
    (cursor.getMany fuel).Under (.sparing .zeroPage) (fun _ => True) ∧
    (cursor.getOne fuel).Under (.sparing .zeroPage) (fun _ => True) ∧
    (cursor.count fuel).Under (.sparing .zeroPage) (fun _ => True) ∧
    (cursor.iterate fuel).Under (.sparing .zeroPage) (fun items => .error .zeroPage ∉ items)
  pages : ∀ (op : Operation) (fuel : Nat), ¬ op.Reports c .zeroPage →
    (op.program c fuel).Under (.sparing .zeroPage) fun _ => True
  attempts : ∀ (op : Operation) (fuel : Nat), ¬ op.Reports c .noAttempts →
    op.options.retry ≠ some (.untilSuccess 0) →
    (op.program c fuel).Under (.sparing .noAttempts) fun _ => True
  override : ∀ (op : Operation) (fuel : Nat), op.options.retry = some (.untilSuccess 0) →
    op.program c fuel = Action.ofExcept (.error .noAttempts)

theorem Collection.Opened.unhindered {c : Collection} (hc : c.Opened) : c.Unhindered where
  cursors := by
    rintro cursor rfl fuel
    have hbatch := hc.defaults.scanBatch_pos
    exact ⟨Cursor.getMany_spares .zeroPage hbatch fuel, Cursor.getOne_spares .zeroPage hbatch fuel,
      Cursor.count_spares .zeroPage hbatch fuel, Cursor.iterate_spares .zeroPage hbatch fuel⟩
  pages _ fuel hreports := Operation.program_spares .zeroPage hc hreports nofun fuel
  attempts _ fuel hreports hretry :=
    Operation.program_spares .noAttempts hc hreports (fun _ => hretry) fuel
  override _ fuel h := Operation.program_of_override h c fuel

namespace Database

variable [KeyValueStore σ]

/-- Opening gives the error of the first invalid setter, else it fails on a closed store, else it gives the
last value of each setting.  From then on every setter fails and changes nothing.  All settings that come
about are valid, and no operation fails for them. -/
theorem settings_live (store : σ) (ids : IdSource) (setters : List (Setter σ)) :
    let builder := (Builder.start store ids).applyAll setters
    let settings := (Settings.initial store ids).withLast setters
    builder.settings =
        (Settings.initial store ids).withLast (setters.takeWhile (·.problem?.isNone)) ∧
    (∀ e, setters.findSome? Setter.problem? = some e → ofBuilder builder = .error e) ∧
    (setters.findSome? Setter.problem? = none →
      (KeyValueStore.isClosed settings.store = true →
        ofBuilder builder = .error .openOnClosedStore ∧ Error.openOnClosedStore.kind = .backend) ∧
      (KeyValueStore.isClosed settings.store = false →
        ofBuilder builder = .ok ⟨{ settings with frozen := true }, .empty⟩)) ∧
    (∀ s : Settings σ, s.Reachable →
      1 ≤ s.scanBatch ∧ s.updateRetry ≠ .untilSuccess 0 ∧ s.deleteRetry ≠ .untilSuccess 0) ∧
    (∀ db db' : Database σ, ofBuilder builder = .ok db → db.Later db' →
      db'.settings.collectionDefaults = settings.collectionDefaults ∧
      (∀ later : List (Setter σ), db'.settings.tryAll later =
        (later.map fun setter => some (.frozen setter.setting), db'.settings)) ∧
      (∀ setting, (Error.frozen setting).kind = .invalidOperation) ∧
      (∀ name options c, (answer (.register name options) db').1 = (.ok c : Except Error Collection) →
        c.Unhindered)) := by
  intro builder settings
  have hbuilder : builder = ⟨(Settings.initial store ids).withLast
      (setters.takeWhile (·.problem?.isNone)), setters.findSome? Setter.problem?⟩ :=
    Builder.applyAll_eq rfl setters
  have hall (hnone : setters.findSome? Setter.problem? = none) : builder = ⟨settings, none⟩ :=
    Builder.applyAll_of_no_problem rfl hnone
  refine ⟨by rw [hbuilder], fun e he => ofBuilder_of_failure (by rw [hbuilder, he]), fun hnone => ?_,
    fun s hs => ?_, fun db db' hdb hlater => ?_⟩
  · rw [hall hnone]
    exact ⟨fun hclosed => ⟨ofBuilder_of_closed rfl hclosed, rfl⟩,
      fun hopen => ofBuilder_of_open rfl hopen⟩
  · obtain ⟨hscan, hupdate, hdelete⟩ := hs.valid
    exact ⟨hscan, RetryPolicy.check_eq_ok_iff.1 hupdate, RetryPolicy.check_eq_ok_iff.1 hdelete⟩
  · have hvalid : builder.settings.collectionDefaults.Valid :=
      Builder.applyAll_valid (Settings.initial_valid store ids) setters
    cases hfailure : setters.findSome? Setter.problem? with
    | some e =>
      rw [ofBuilder_of_failure (by rw [hbuilder, hfailure])] at hdb
      cases hdb
    | none =>
      rw [hall hfailure] at hdb hvalid
      cases hclosed : KeyValueStore.isClosed settings.store with
      | true =>
        rw [ofBuilder_of_closed rfl hclosed] at hdb
        cases hdb
      | false =>
        -- the database that was opened has the last values, frozen, and no collections yet
        rw [ofBuilder_of_open rfl hclosed] at hdb
        cases hdb
        obtain ⟨hfrozen, hdefaults, hsound⟩ := hlater.settled Registry.sound_empty hvalid
        exact ⟨hdefaults, Settings.tryAll_of_frozen hfrozen, fun _ => rfl, fun name options c hc =>
          (opened_of_register hsound (hdefaults ▸ hvalid) hc).unhindered⟩

/-- Of two page sizes the last one counts, and a collection that is opened then works with it, also for a
cursor that wants nothing.  Before a page size of zero stands a policy without attempts.  A closed store
cannot be opened. -/
theorem settings_live_of_pages :
    let ids := IdSource.counter "article"
    let db : Database Memory := ⟨⟨.empty, ids, .single, .forDeletes, 5, true⟩, .empty⟩
    let articles : Collection := ⟨"articles", ⟨[]⟩, {}, ⟨5, .single, .forDeletes⟩⟩
    ofBuilder ((Builder.start Memory.empty ids).applyAll
      [.scanBatch 2, .updateRetry .single, .scanBatch 5]) = .ok db ∧
    ofBuilder ((Builder.start Memory.empty ids).applyAll
      [.scanBatch 2, .deleteRetry (.untilSuccess 0), .scanBatch 0]) = .error .noAttempts ∧
    ofBuilder ((Builder.start Memory.empty ids).applyAll [.store Memory.empty.close]) =
      .error .openOnClosedStore ∧
    articles.Unhindered ∧
    ∀ (plan : Plan) (fuel : Nat), (db.run (Cursor.getMany ⟨articles, plan, [.limit 0]⟩ fuel)).1 ≠
      some (.error .zeroPage) := by
  intro ids db articles
  have hopen : ofBuilder ((Builder.start Memory.empty ids).applyAll
      [.scanBatch 2, .updateRetry .single, .scanBatch 5]) = .ok db :=
    ((settings_live Memory.empty ids _).2.2.1 rfl).2 rfl
  have hlife := (settings_live Memory.empty ids _).2.2.2.2 db db hopen .now
  have harticles : articles.Unhindered := hlife.2.2.2 "articles" none _ rfl
  exact ⟨hopen, (settings_live Memory.empty ids _).2.1 .noAttempts rfl,
    (((settings_live Memory.empty ids _).2.2.1 rfl).1 rfl).1, harticles, fun plan fuel =>
      (harticles.cursors ⟨articles, plan, [.limit 0]⟩ rfl fuel).1.run_ne answer_spares_zeroPage db⟩

end Database

end DocumentStore

import DocumentStore.Proofs.Collection.Attempts
import DocumentStore.Proofs.Collection.Scanning
import DocumentStore.Proofs.Program.Interference
import Mathlib.Data.List.Forall2
import Mathlib.Data.List.Sort

/-!
# Scans of a table that others change

A scan fetches a page, hands out its entries and goes on behind the last of them, whatever became of
that entry.  Others may change the table between two pages.  `Scan.Along` is what the scan keeps up:
what it has handed out and what is left of its page ascends, and a key that was in all pages' tables
so far is among these entries or still ahead.
-/

namespace DocumentStore

/-! ## Successive calls -/

inductive Ending where
  | going
  | ended
  | failed (e : Error)

/-- What successive calls give: items one after another, and after the first `none` or error only
`none`. -/
inductive Handed {α : Type} : List α → Ending → List (Option (Except Error α)) → Prop where
  | going : Handed [] .going []
  | ended (k : Nat) : Handed [] .ended (List.replicate (k + 1) none)
  | failed (e : Error) (k : Nat) : Handed [] (.failed e) (some (.error e) :: List.replicate k none)
  | item {as : List α} {ending : Ending} {items : List (Option (Except Error α))} (a : α)
    (h : Handed as ending items) : Handed (a :: as) ending (some (.ok a) :: items)

theorem Handed.length_of_going {α : Type} {as : List α} {items : List (Option (Except Error α))}
    (h : Handed as .going items) : items.length = as.length := by
  generalize hending : Ending.going = ending at h
  induction h with
  | going => rfl
  | ended k => cases hending
  | failed e k => cases hending
  | item a _ ih => rw [List.length_cons, List.length_cons, ih hending]

theorem Handed.items_of_ended {α : Type} {as : List α} {items : List (Option (Except Error α))}
    (h : Handed as .ended items) :
    items = as.map (fun a => some (.ok a)) ++ List.replicate (items.length - as.length) none := by
  generalize hending : Ending.ended = ending at h
  induction h with
  | going => cases hending
  | ended k => simp
  | failed e k => cases hending
  | item a _ ih =>
    rw [List.map_cons, List.cons_append, List.length_cons, List.length_cons, Nat.add_sub_add_right,
      ← ih hending]

/-! ## Scans -/

variable {base : Key} {pageSize : Nat} {met : List Memory} {es : List Entry} {s : Scan}

namespace Scan

def calls : Nat → Scan → Program (List (Option (Except Error Entry)))
  | 0, _ => return []
  | n + 1, s => do
    let (item, s) ← s.next
    return item :: (← s.calls n)

/-- What a scan hands out that meets certain memories at its requests. -/
structure Reads (base : Key) (pageSize : Nat) (met : List Memory) (es : List Entry)
    (ending : Ending) : Prop where
  /-- The keys ascend, so no key comes twice. -/
  ascending : es.Pairwise fun a b => compare a.key b.key = .lt
  under : ∀ e ∈ es, e.key.isUnder base = true
  /-- Each page is a part of the table that its request met, and the entries are those of the pages. -/
  pages : ∃ pages : List (List Entry),
    List.Forall₂ (fun m page => ∃ after, page = m.table.scan base after pageSize)
      (met.filter (!·.closed)) pages ∧ es <+: pages.flatten
  /-- When it has ended, a key that was there at all requests was handed out once. -/
  complete : ending = .ended → ∀ key : Key, key.isUnder base = true →
    (∀ m ∈ met, (m.table.find? key).isSome = true) → es.countP (·.key.same key) = 1
  /-- It fails only if the store was closed. -/
  failed : ∀ e, ending = .failed e → e = .closedStore ∧ ∃ m ∈ met, m.closed = true

/-- Where a scan stands that has met certain memories and handed out certain entries. -/
structure Along (base : Key) (pageSize : Nat) (met : List Memory) (es : List Entry) (s : Scan) :
    Prop where
  base_eq : s.base = base
  pageSize_eq : s.pageSize = pageSize
  last : s.last = es.getLast?.map (·.key)
  opened : ∀ m ∈ met, m.closed = false
  pages : ∃ pages : List (List Entry),
    List.Forall₂ (fun m page => ∃ after, page = m.table.scan base after pageSize) met pages ∧
      pages.flatten = es ++ s.page
  ascending : (es ++ s.page).Pairwise fun a b => compare a.key b.key = .lt
  under : ∀ e ∈ es ++ s.page, e.key.isUnder base = true
  /-- A key that was there at all requests has been fetched, or another page will be fetched and the
  key is behind all that was fetched. -/
  ahead : ∀ key : Key, key.isUnder base = true →
    (∀ m ∈ met, (m.table.find? key).isSome = true) →
    (∃ e ∈ es ++ s.page, e.key.same key = true) ∨
      s.exhausted = false ∧ ∀ e ∈ es ++ s.page, compare e.key key = .lt

structure Stopped (s : Scan) : Prop where
  page : s.page = []
  exhausted : s.exhausted = true

/-! ### One step -/

/-- In entries with ascending keys each key comes once at most. -/
theorem countP_same_of_ascending {e : Entry} {key : Key}
    (h : es.Pairwise fun a b => compare a.key b.key = .lt) (he : e ∈ es)
    (hkey : e.key.same key = true) : es.countP (·.key.same key) = 1 := by
  obtain ⟨l₁, l₂, rfl⟩ := List.append_of_mem he
  obtain ⟨_, h₂, h₁⟩ := List.pairwise_append.1 h
  obtain ⟨h₂, _⟩ := List.pairwise_cons.1 h₂
  have heq : compare e.key key = .eq := Key.same_iff.1 hkey
  have hbefore : l₁.countP (·.key.same key) = 0 := by
    refine List.countP_eq_zero.2 fun a ha hsame => ?_
    have hlt := h₁ a ha e List.mem_cons_self
    rw [Std.TransCmp.congr_right heq, Key.same_iff.1 hsame] at hlt
    cases hlt
  have hbehind : l₂.countP (·.key.same key) = 0 := by
    refine List.countP_eq_zero.2 fun a ha hsame => ?_
    have hlt := h₂ a ha
    rw [Std.TransCmp.congr_left heq, Std.OrientedCmp.eq_symm (Key.same_iff.1 hsame)] at hlt
    cases hlt
  rw [List.countP_append, List.countP_cons, if_pos hkey, hbefore, hbehind]

theorem along_start (base : Key) (pageSize : Nat) : (start base pageSize).Along base pageSize [] [] :=
  ⟨rfl, rfl, rfl, nofun, ⟨[], .nil, rfl⟩, .nil, nofun, fun _ _ _ => .inr ⟨rfl, nofun⟩⟩

namespace Along

/-- An entry of the page is handed out. -/
theorem pop {e : Entry} {page : List Entry} (h : s.Along base pageSize met es)
    (hpage : s.page = e :: page) :
    Along base pageSize met (es ++ [e]) { s with page := page, last := some e.key } := by
  have hsplit : es ++ s.page = (es ++ [e]) ++ page := by
    rw [hpage, List.append_assoc]
    rfl
  obtain ⟨hbase, hsize, _, hopened, hpages, hascending, hunder, hahead⟩ := h
  rw [hsplit] at hpages hascending hunder hahead
  exact ⟨hbase, hsize, by simp, hopened, hpages, hascending, hunder, hahead⟩

/-- A page that is fetched starts behind all that was handed out. -/
theorem isLE_start (h : s.Along base pageSize met es) (hpage : s.page = []) :
    (compare base (s.last.getD base)).isLE = true ∧
      ∀ e ∈ es, (compare e.key (s.last.getD base)).isLE = true := by
  have hascending := h.ascending
  have hunder := h.under
  rw [hpage, List.append_nil] at hascending hunder
  rw [h.last]
  rcases List.eq_nil_or_concat es with rfl | ⟨init, e, rfl⟩
  · exact ⟨by simp, nofun⟩
  · rw [List.concat_eq_append] at hascending hunder ⊢
    have hget : (init ++ [e]).getLast? = some e := by simp
    rw [hget, Option.map_some, Option.getD_some]
    refine ⟨by rw [Key.lt_of_isUnder (hunder e (by simp))]; rfl, fun f hf => ?_⟩
    rcases List.mem_append.1 hf with hf | hf
    · rw [(List.pairwise_append.1 hascending).2.2 f hf e (by simp)]
      rfl
    · rw [List.mem_singleton.1 hf, Std.ReflOrd.compare_self (a := e.key)]
      rfl

/-- An entry behind all that was handed out is in the next page, or that page is full and ends before
it. -/
theorem mem_page_or_full {t : Table} {f : Entry} (h : s.Along base pageSize met es)
    (hpage : s.page = []) (hf : f ∈ t.entries) (hunder : f.key.isUnder base = true)
    (hbehind : ∀ e ∈ es, compare e.key f.key = .lt) :
    f ∈ t.scan base s.last pageSize ∨
      (t.scan base s.last pageSize).length = pageSize ∧
        ∀ e ∈ t.scan base s.last pageSize, compare e.key f.key = .lt := by
  refine Table.mem_scan_or_full pageSize (h.isLE_start hpage).1 hf hunder ?_
  rw [h.last]
  cases hget : es.getLast? with
  | none => exact Key.lt_of_isUnder hunder
  | some e => exact hbehind e (List.mem_of_getLast? hget)

/-- A page is fetched, behind what was handed out. -/
theorem refill {m : Memory} (h : s.Along base pageSize met es) (hpage : s.page = [])
    (hopen : m.closed = false) :
    Along base pageSize (met ++ [m]) es
      (s.refill (m.table.scan s.base s.last s.pageSize)) := by
  have hstart := h.isLE_start hpage
  have hnext := fun f => h.mem_page_or_full (t := m.table) (f := f) hpage
  obtain ⟨hbase, hsize, hlast, hopened, ⟨pages, hmet, hpages⟩, hascending, hunder, hahead⟩ := h
  rw [hpage, List.append_nil] at hpages hascending hunder hahead
  rw [hbase, hsize]
  refine ⟨hbase, hsize, hlast, ?_, ⟨pages ++ [m.table.scan base s.last pageSize], ?_, ?_⟩, ?_, ?_, ?_⟩
  · intro m' hm'
    rcases List.mem_append.1 hm' with hm' | hm'
    · exact hopened m' hm'
    · rw [List.mem_singleton.1 hm', hopen]
  · exact List.rel_append hmet (.cons ⟨s.last, rfl⟩ .nil)
  · rw [List.flatten_append, hpages, List.flatten_singleton]
    rfl
  · refine List.pairwise_append.2 ⟨hascending, m.table.scan_ordered base s.last pageSize, ?_⟩
    intro e he f hf
    exact Std.TransCmp.lt_of_isLE_of_lt (hstart.2 e he) (Table.behind_of_mem_scan hf)
  · intro e he
    rcases List.mem_append.1 he with he | he
    · exact hunder e he
    · exact (Table.mem_of_mem_scan he).2
  · intro key hkey hall
    have hpresent : ∀ m ∈ met, (m.table.find? key).isSome = true := fun m' hm' =>
      hall m' (List.mem_append_left _ hm')
    rcases hahead key hkey hpresent with ⟨e, he, hsame⟩ | ⟨_, hbehind⟩
    · exact .inl ⟨e, List.mem_append_left _ he, hsame⟩
    -- the key has an entry in the table of this page
    · obtain ⟨f, hf⟩ := Option.isSome_iff_exists.1 (hall m (by simp))
      obtain ⟨hmem, hsame⟩ := Table.find?_eq_some_iff.1 hf
      have heq : compare f.key key = .eq := Key.same_iff.1 hsame
      have hbasekey : compare base f.key = .lt := by
        rw [Std.TransCmp.congr_right heq]
        exact Key.lt_of_isUnder hkey
      have hfunder : f.key.isUnder base = true :=
        Key.isUnder_of_between hbasekey (by rw [heq]; rfl) hkey
      have hfbehind : ∀ e ∈ es, compare e.key f.key = .lt := fun e he => by
        rw [Std.TransCmp.congr_right heq]
        exact hbehind e he
      rcases hnext f hmem hfunder hfbehind with hfetched | ⟨hfull, hbefore⟩
      · exact .inl ⟨f, List.mem_append_right _ hfetched, hsame⟩
      · refine .inr ⟨?_, fun e he => ?_⟩
        · show decide ((m.table.scan base s.last pageSize).length < s.pageSize) = false
          rw [hfull, hsize, decide_eq_false (Nat.lt_irrefl _)]
        · rcases List.mem_append.1 he with he | he
          · exact hbehind e he
          · rw [← Std.TransCmp.congr_right heq]
            exact hbefore e he

/-! ### What was handed out -/

theorem filter_opened (h : s.Along base pageSize met es) : met.filter (!·.closed) = met :=
  List.filter_eq_self.2 fun m hm => by simp [h.opened m hm]

theorem reads_going (h : s.Along base pageSize met es) : Reads base pageSize met es .going := by
  obtain ⟨pages, hmet, hpages⟩ := h.pages
  refine ⟨(List.pairwise_append.1 h.ascending).1, fun e he => h.under e (List.mem_append_left _ he),
    ⟨pages, ?_, s.page, hpages.symm⟩, nofun, nofun⟩
  rwa [h.filter_opened]

theorem reads_ended (h : s.Along base pageSize met es) (hstopped : s.Stopped) :
    Reads base pageSize met es .ended := by
  refine { h.reads_going with complete := fun _ key hkey hall => ?_, failed := nofun }
  have hpage : es ++ s.page = es := by rw [hstopped.page, List.append_nil]
  rcases h.ahead key hkey hall with ⟨e, he, hsame⟩ | ⟨hexhausted, _⟩
  · exact countP_same_of_ascending h.reads_going.ascending (hpage ▸ he) hsame
  · rw [hstopped.exhausted] at hexhausted
    cases hexhausted

theorem reads_failed {m : Memory} (h : s.Along base pageSize met es) (hclosed : m.closed = true) :
    Reads base pageSize (met ++ [m]) es (.failed .closedStore) := by
  refine { h.reads_going with
    pages := ?_, complete := nofun, failed := fun e he => ?_ }
  · rw [List.filter_append, List.filter_singleton, hclosed]
    simpa using h.reads_going.pages
  · cases he
    exact ⟨rfl, m, by simp, hclosed⟩

end Along

/-! ### Runs -/

variable {before : List Memory} {sh : Shared}

/-- What a request for the next item leads to, if `es` were handed out before and the scan met the
memories behind `before`. -/
def Steps (base : Key) (pageSize : Nat) (before : List Memory) (es : List Entry)
    (item : Option (Except Error Entry)) (s : Scan) (sh : Shared) : Prop :=
  ∃ met, sh.met = before ++ met ∧ match item with
    | some (.ok e) => s.Along base pageSize met (es ++ [e])
    | some (.error e) => Reads base pageSize met es (.failed e) ∧ s.Stopped
    | none => Reads base pageSize met es .ended ∧ s.Stopped

/-- The first entry of a page is handed out, or the scan has ended. -/
theorem Along.pop_steps (h : s.Along base pageSize met es) (hmet : sh.met = before ++ met)
    (hpage : s.page = [] → s.exhausted = true) :
    Steps base pageSize before es (s.pop.1.map .ok) s.pop.2 sh := by
  unfold Scan.pop
  split
  · rename_i hempty
    have hstopped : s.Stopped := ⟨hempty, hpage hempty⟩
    exact ⟨met, hmet, h.reads_ended hstopped, hstopped⟩
  · rename_i e page hcons
    exact ⟨met, hmet, h.pop hcons⟩

/-- A scan begins unless the store is closed. -/
theorem begin_settles :
    Program.Settles (fun r sh' => r = .error .zeroPage ∧ pageSize = 0 ∨
      sh'.met = sh.met ++ [sh.current.memory] ∧
        (r = .error .listOnClosedStore ∧ sh.current.memory.closed = true ∨
          r = .ok (start base pageSize) ∧ 0 < pageSize))
      (begin base pageSize) sh := by
  unfold begin
  by_cases hzero : pageSize = 0
  · rw [if_pos hzero]
    exact .pure (.inl ⟨rfl, hzero⟩)
  · rw [if_neg hzero]
    refine .bind (.bind (Program.Settles.isClosed.imp ?_))
    rintro closed sh' ⟨rfl, hmet⟩
    cases hclosed : sh.current.memory.closed with
    | true => exact .pure (.pure (.inr ⟨hmet, .inl ⟨rfl, rfl⟩⟩))
    | false => exact .pure (.pure (.inr ⟨hmet, .inr ⟨rfl, Nat.pos_of_ne_zero hzero⟩⟩))

theorem next_settles (hpos : 0 < pageSize) (h : s.Along base pageSize met es)
    (hmet : sh.met = before ++ met) :
    s.next.Settles (fun r sh' => Steps base pageSize before es r.1 r.2 sh') sh := by
  unfold next
  by_cases hask : (s.page.isEmpty && !s.exhausted) = true
  · rw [if_pos hask]
    have hpage : s.page = [] := List.isEmpty_iff.1 (Bool.and_eq_true_iff.1 hask).1
    refine Program.Settles.bind (Program.Settles.scan.imp ?_)
    rintro r sh' ⟨hmet', -, -, ⟨hclosed, rfl⟩ | ⟨hopen, rfl⟩⟩
    · rw [hmet, List.append_assoc] at hmet'
      exact .pure ⟨_, hmet', h.reads_failed hclosed, hpage, rfl⟩
    · rw [hmet, List.append_assoc] at hmet'
      refine .pure ((h.refill hpage hopen).pop_steps hmet' fun hempty => ?_)
      -- an empty page is not full
      show decide (List.length _ < s.pageSize) = true
      have hempty : sh.current.memory.table.scan s.base s.last s.pageSize = [] := hempty
      rw [hempty, h.pageSize_eq]
      exact decide_eq_true hpos
  · rw [if_neg hask]
    exact .pure (h.pop_steps hmet fun hempty => by simpa [hempty] using hask)

theorem Stopped.next_settles (h : s.Stopped) :
    s.next.Settles (fun r sh' => sh' = sh ∧ r = (none, s)) sh := by
  unfold next
  rw [if_neg (by simp [h.exhausted])]
  refine .pure ⟨rfl, ?_⟩
  rw [h.page]
  rfl

theorem Stopped.calls_settles (h : s.Stopped) (n : Nat) :
    (s.calls n).Settles (fun items sh' => sh' = sh ∧ items = List.replicate n none) sh := by
  induction n with
  | zero => exact .pure ⟨rfl, rfl⟩
  | succ n ih =>
    refine .bind (h.next_settles.imp ?_)
    rintro r sh' ⟨rfl, rfl⟩
    refine .bind (ih.imp ?_)
    rintro items sh'' ⟨rfl, rfl⟩
    exact .pure ⟨rfl, rfl⟩

/-- What successive calls give, from any point of a scan on. -/
theorem calls_settles (hpos : 0 < pageSize) (h : s.Along base pageSize met es)
    (hmet : sh.met = before ++ met) (n : Nat) :
    (s.calls n).Settles (fun items sh' => ∃ met' es' ending, sh'.met = before ++ met' ∧
      items.length = n ∧ Handed es' ending items ∧
      Reads base pageSize met' (es ++ es') ending) sh := by
  induction n generalizing s sh met es with
  | zero =>
    refine .pure ⟨met, [], .going, hmet, rfl, .going, ?_⟩
    rw [List.append_nil]
    exact h.reads_going
  | succ n ih =>
    refine .bind ((next_settles hpos h hmet).imp ?_)
    rintro ⟨item, s'⟩ sh' ⟨met', hmet', hstep⟩
    rcases item with _ | e | e
    · obtain ⟨hreads, hstopped⟩ := hstep
      refine .bind ((hstopped.calls_settles n).imp ?_)
      rintro items sh'' ⟨rfl, rfl⟩
      exact .pure ⟨met', [], .ended, hmet', by simp, .ended n, by rwa [List.append_nil]⟩
    · obtain ⟨hreads, hstopped⟩ := hstep
      refine .bind ((hstopped.calls_settles n).imp ?_)
      rintro items sh'' ⟨rfl, rfl⟩
      exact .pure ⟨met', [], .failed e, hmet', by simp, .failed e n, by rwa [List.append_nil]⟩
    · refine .bind ((ih hstep hmet').imp ?_)
      rintro items sh'' ⟨met'', es', ending, hmet'', hlength, hhanded, hreads⟩
      rw [List.append_assoc] at hreads
      exact .pure ⟨met'', e :: es', ending, hmet'', congrArg (· + 1) hlength, hhanded.item e, hreads⟩

/-! ### Tables that do not change -/

/-- What is handed out was stored when its page was fetched. -/
theorem Reads.stored {ending : Ending} {e : Entry} (h : Reads base pageSize met es ending)
    (he : e ∈ es) : ∃ m ∈ met, m.closed = false ∧ e ∈ m.table.entries := by
  obtain ⟨pages, hpages, hes⟩ := h.pages
  obtain ⟨page, hpage, he⟩ := List.mem_flatten.1 (hes.subset he)
  obtain ⟨i, hi, rfl⟩ := List.getElem_of_mem hpage
  have hlt : i < (met.filter (!·.closed)).length := hpages.length_eq ▸ hi
  obtain ⟨after, hafter⟩ := hpages.get hlt hi
  rw [List.get_eq_getElem, List.get_eq_getElem] at hafter
  obtain ⟨hmem, hopen⟩ := List.mem_filter.1 (List.getElem_mem hlt)
  exact ⟨_, hmem, by simpa using hopen, (Table.mem_of_mem_scan (hafter ▸ he)).1⟩

/-- A scan that has ended has handed out all of a table that all its requests met. -/
theorem Reads.eq_under {t : Table} (h : Reads base pageSize met es .ended)
    (htable : ∀ m ∈ met, m.table = t) : es = t.under base := by
  have hirrefl : ∀ a : Entry, ¬ compare a.key a.key = .lt := fun a hlt => by
    rw [Std.ReflOrd.compare_self] at hlt
    cases hlt
  have : Std.Irrefl fun a b : Entry => compare a.key b.key = .lt := ⟨hirrefl⟩
  have : Std.Antisymm fun a b : Entry => compare a.key b.key = .lt :=
    ⟨fun a b hab hba => absurd (Std.TransCmp.lt_trans hab hba) (hirrefl a)⟩
  refine h.ascending.eq_of_mem_iff (t.under_ordered base) fun e => ?_
  rw [Table.mem_under]
  constructor
  · intro he
    obtain ⟨m, hm, _, hmem⟩ := h.stored he
    exact ⟨htable m hm ▸ hmem, h.under e he⟩
  · rintro ⟨hmem, hunder⟩
    -- the key of the entry was there at all requests
    have hcount := h.complete rfl e.key hunder fun m hm => by
      rw [htable m hm, Table.find?_eq_some_iff.2 ⟨hmem, Key.same_refl _⟩]
      rfl
    obtain ⟨f, hf, hsame⟩ := List.countP_pos_iff.1 (hcount ▸ Nat.one_pos)
    obtain ⟨m, hm, _, hf'⟩ := h.stored hf
    rwa [← Table.eq_of_same_key (htable m hm ▸ hf') hmem hsame]

theorem calls_commitsAtMost (n : Nat) (s : Scan) : (s.calls n).CommitsAtMost 0 := by
  induction n generalizing s with
  | zero => exact .pure 0 _
  | succ n ih => exact .after s.next_commitsAtMost fun r => .after (ih r.2) fun items => .pure 0 _

/-- What is handed out of a table that nobody changes is a part of it. -/
theorem Reads.length_le {ending : Ending} {t : Table} (h : Reads base pageSize met es ending)
    (htable : ∀ m ∈ met, m.table = t) : es.length ≤ (t.under base).length := by
  have hnodup : es.Nodup := h.ascending.imp fun hlt heq => by
    rw [heq, Std.ReflOrd.compare_self] at hlt
    cases hlt
  have hsubset : es ⊆ t.under base := fun e he => by
    obtain ⟨m, hm, _, hmem⟩ := h.stored he
    exact Table.mem_under.2 ⟨htable m hm ▸ hmem, h.under e he⟩
  exact (List.subperm_of_subset hnodup hsubset).length_le

/-- A scan of an open store does not fail. -/
theorem Reads.not_failed {e : Error} (h : Reads base pageSize met es (.failed e))
    (hopen : ∀ m ∈ met, m.closed = false) : False := by
  obtain ⟨_, m, hm, hclosed⟩ := h.failed e rfl
  rw [hopen m hm] at hclosed
  cases hclosed

/-- While nobody changes the table, enough calls hand out all of it. -/
theorem Reads.items_of_still {ending : Ending} {items : List (Option (Except Error Entry))}
    {t : Table} (h : Reads base pageSize met es ending) (hhanded : Handed es ending items)
    (hmet : ∀ m ∈ met, m.table = t ∧ m.closed = false)
    (hlength : (t.under base).length < items.length) :
    items = (t.under base).map (fun e => some (.ok e)) ++
      List.replicate (items.length - (t.under base).length) none := by
  cases ending with
  | failed e => exact (h.not_failed fun m hm => (hmet m hm).2).elim
  | ended =>
    rw [← h.eq_under fun m hm => (hmet m hm).1]
    exact hhanded.items_of_ended
  -- there are not so many entries
  | going =>
    have hle := h.length_le fun m hm => (hmet m hm).1
    rw [hhanded.length_of_going] at hlength
    omega

/-! ### Scans come to an end -/

/-- The scan hands out fewer entries than so many, if others do what they are going to do. -/
def EndsWithin : Nat → Scan → Shared → Prop
  | 0, _, _ => False
  | n + 1, s, sh => s.next.Settles (fun r sh' => ∀ e, r.1 = some (.ok e) → r.2.EndsWithin n sh') sh

theorem EndsWithin.mono {n k : Nat} (h : s.EndsWithin n sh) (hle : n ≤ k) : s.EndsWithin k sh := by
  induction n generalizing s sh k with
  | zero => exact h.elim
  | succ n ih =>
    obtain ⟨k, rfl⟩ : ∃ m, k = m + 1 := ⟨k - 1, by omega⟩
    exact Program.Settles.imp (fun r sh' hr e he => ih (hr e he) (by omega)) h

def emptied (s : Scan) : Scan :=
  { s with page := [], last := (s.page.getLast?.map (·.key)).or s.last }

theorem endsWithin_of_emptied {n : Nat} (h : s.emptied.EndsWithin n sh) :
    s.EndsWithin (n + s.page.length) sh := by
  obtain ⟨base, pageSize, page, last, exhausted⟩ := s
  induction page generalizing last with
  | nil => exact h
  | cons e page ih =>
    refine Program.Settles.pure fun f hf => ?_
    cases hf
    refine ih (some e.key) ?_
    have hlast : ((e :: page).getLast?.map (·.key)).or last =
        (page.getLast?.map (·.key)).or (some e.key) := by
      cases hpage : page.getLast? <;> simp [List.getLast?_cons, hpage]
    unfold emptied at h ⊢
    dsimp only at h ⊢
    rwa [hlast] at h

/-- A scan whose page is used up ends, or goes on with the page that it asks for. -/
theorem exists_endsWithin_of_request (hpage : s.page = [])
    (h : ∀ e page sh', sh'.deeds = sh.deeds.tail →
      sh'.database.memory.table = sh.current.memory.table →
      sh.current.memory.table.scan s.base s.last s.pageSize = e :: page →
      ∃ n, EndsWithin n { s.refill (e :: page) with page := page, last := some e.key } sh') :
    ∃ n, s.EndsWithin n sh := by
  by_cases hask : (s.page.isEmpty && !s.exhausted) = true
  · have hscan : Program.Settles _ (Action.scan s.base s.last s.pageSize) sh :=
      Program.Settles.scan
    obtain ⟨r, sh', hrun, -, hdeeds, htable, hr⟩ := hscan
    -- what the next item is once the page is known
    have hnext : ∀ {n : Nat} {r : Except Error (List Entry)} {sh' : Shared},
        (Action.scan s.base s.last s.pageSize).run.run Shared.answer sh = (some r, sh') →
        (∀ e page, r = .ok (e :: page) →
          EndsWithin n { s.refill (e :: page) with page := page, last := some e.key } sh') →
        s.EndsWithin (n + 1) sh := by
      intro n r sh' hrun hgoes
      unfold EndsWithin next
      rw [if_pos hask]
      refine Program.Settles.bind ⟨r, sh', hrun, ?_⟩
      rcases r with e | _ | ⟨e, page⟩
      · exact .pure nofun
      · exact .pure nofun
      · exact .pure fun f hf => hgoes e page rfl
    rcases hr with ⟨_, rfl⟩ | ⟨_, rfl⟩
    · exact ⟨1, hnext (n := 0) hrun fun f rest heq => (by cases heq)⟩
    · cases hscan : sh.current.memory.table.scan s.base s.last s.pageSize with
      | nil => exact ⟨1, hnext (n := 0) (hscan ▸ hrun) fun f rest heq => (by cases heq)⟩
      | cons e page =>
        obtain ⟨n, hn⟩ := h e page sh' hdeeds htable hscan
        refine ⟨n + 1, hnext (hscan ▸ hrun) fun f rest heq => ?_⟩
        cases heq
        exact hn
  · have hstopped : s.Stopped := ⟨hpage, by simpa [hpage] using hask⟩
    refine ⟨1, hstopped.next_settles.imp ?_⟩
    rintro r sh' ⟨_, rfl⟩
    exact nofun

/-- Behind the last entry of a page there is less than behind its start. -/
theorem behind_emptied_lt {t : Table} {e : Entry} {page : List Entry} (exhausted : Bool)
    (hscan : t.scan s.base s.last s.pageSize = e :: page) :
    (t.behind ((emptied ⟨s.base, s.pageSize, page, some e.key, exhausted⟩).last.getD s.base)).length <
      (t.behind (s.last.getD s.base)).length := by
  have hord := t.scan_ordered s.base s.last s.pageSize
  have hstart : ∀ f ∈ e :: page, f ∈ t.behind (s.last.getD s.base) := fun f hf =>
    List.mem_filter.2 ⟨(Table.mem_of_mem_scan (hscan ▸ hf)).1,
      beq_iff_eq.2 (Table.behind_of_mem_scan (hscan ▸ hf))⟩
  rw [hscan] at hord
  -- the last entry is the first one or lies behind it
  obtain ⟨f, hf, hlast, hle⟩ : ∃ f ∈ e :: page,
      (emptied ⟨s.base, s.pageSize, page, some e.key, exhausted⟩).last = some f.key ∧
        (compare e.key f.key).isLE = true := by
    unfold emptied
    dsimp only
    cases hget : page.getLast? with
    | none => exact ⟨e, List.mem_cons_self, rfl, by simp⟩
    | some f =>
      have hf := List.mem_of_getLast? hget
      exact ⟨f, List.mem_cons_of_mem _ hf, rfl, by rw [(List.pairwise_cons.1 hord).1 f hf]; rfl⟩
  rw [hlast, Option.getD_some]
  have hsublist : (t.behind f.key).Sublist (t.behind (s.last.getD s.base)) :=
    List.monotone_filter_right _ fun g hg =>
      beq_iff_eq.2 (Std.TransCmp.lt_trans (eq_of_beq (List.mem_filter.1 (hstart f hf)).2)
        (eq_of_beq hg))
  refine Nat.lt_of_le_of_ne hsublist.length_le fun heq => ?_
  -- the first entry of the page is in the longer list only
  have hmem : e ∈ t.behind f.key := hsublist.eq_of_length heq ▸ hstart e List.mem_cons_self
  have hlt : compare f.key e.key = .lt := eq_of_beq (List.mem_filter.1 hmem).2
  rw [Std.OrientedCmp.gt_of_lt hlt] at hle
  cases hle

/-- Once others do nothing more, each page leaves less for the next ones. -/
theorem exists_endsWithin_of_quiet (s : Scan) (sh : Shared) (k : Nat) (hquiet : sh.deeds = [])
    (hpage : s.page = [])
    (hbehind : (sh.database.memory.table.behind (s.last.getD s.base)).length ≤ k) :
    ∃ n, s.EndsWithin n sh := by
  have hcurrent : sh.current = sh.database := by
    unfold Shared.current
    rw [hquiet]
    rfl
  induction k generalizing s sh with
  | zero =>
    refine exists_endsWithin_of_request hpage fun e page sh' _ _ hscan => ?_
    rw [hcurrent] at hscan
    have hlt := behind_emptied_lt true hscan
    omega
  | succ k ih =>
    refine exists_endsWithin_of_request hpage fun e page sh' hdeeds htable hscan => ?_
    rw [hcurrent] at hscan htable
    have hquiet' : sh'.deeds = [] := by rw [hdeeds, hquiet, List.tail_nil]
    have hcurrent' : sh'.current = sh'.database := by
      unfold Shared.current
      rw [hquiet']
      rfl
    have hlt := behind_emptied_lt (s.refill (e :: page)).exhausted hscan
    rw [← htable] at hlt hbehind
    obtain ⟨n, hn⟩ := ih (emptied { s.refill (e :: page) with page := page, last := some e.key }) sh'
      hquiet' rfl (Nat.le_of_lt_succ (Nat.lt_of_lt_of_le hlt hbehind)) hcurrent'
    exact ⟨_, endsWithin_of_emptied hn⟩

/-- Whatever others are going to do, the scan comes to an end. -/
theorem exists_endsWithin (s : Scan) (sh : Shared) : ∃ n, s.EndsWithin n sh := by
  obtain ⟨db, deeds, met⟩ := sh
  induction deeds generalizing s db met with
  | nil =>
    obtain ⟨n, hn⟩ := exists_endsWithin_of_quiet s.emptied ⟨db, [], met⟩ _ rfl rfl
      (Nat.le_refl _)
    exact ⟨_, endsWithin_of_emptied hn⟩
  | cons ds deeds ih =>
    have hemptied : ∃ n, s.emptied.EndsWithin n ⟨db, ds :: deeds, met⟩ := by
      refine exists_endsWithin_of_request rfl fun e page sh' hdeeds _ _ => ?_
      obtain ⟨db', deeds', met'⟩ := sh'
      cases hdeeds
      exact ih _ db' met'
    obtain ⟨n, hn⟩ := hemptied
    exact ⟨_, endsWithin_of_emptied hn⟩

end Scan

end DocumentStore

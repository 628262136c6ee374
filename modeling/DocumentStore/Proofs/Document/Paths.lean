import DocumentStore.Document.Path
import DocumentStore.Proofs.Document.Fields

/-!
# Reading and writing along paths

Reading, writing and removing along a path agree with each other: what is written is read back, what is
removed is gone, and every path that parts from the written one leads to what it led to before
(`paths_lawful`).  The three are recursions of their own, and the laws follow the names of a path from
document to nested document.
-/

namespace DocumentStore

namespace Path

/-! ## Segments -/

def segments (path : String) : List String := (names path).1 :: (names path).2

/-- Two lists of names that part somewhere: neither is a beginning of the other. -/
def Parting (a b : List String) : Prop := ¬ a <+: b ∧ ¬ b <+: a

instance (a b : List String) : Decidable (Parting a b) :=
  inferInstanceAs (Decidable (¬ a <+: b ∧ ¬ b <+: a))

theorem Parting.symm {a b : List String} (h : Parting a b) : Parting b a := ⟨h.2, h.1⟩

theorem not_parting_nil (b : List String) : ¬ Parting [] b := fun h => h.1 (List.nil_prefix)

theorem parting_cons_iff {a b : String} {as bs : List String} :
    Parting (a :: as) (b :: bs) ↔ a ≠ b ∨ Parting as bs := by
  unfold Parting
  rw [List.cons_prefix_cons, List.cons_prefix_cons]
  by_cases h : a = b
  · simp [h]
  · simp [h, Ne.symm h]

/-- A single name parts at once. -/
theorem Parting.ne_of_single {a b : String} {bs : List String} (h : Parting [a] (b :: bs)) :
    b ≠ a :=
  (parting_cons_iff.1 h).elim Ne.symm fun hnil => absurd hnil (not_parting_nil bs)

/-- Behind a common name both go on. -/
theorem Parting.exists_of_cons {a : String} {as bs : List String}
    (h : Parting (a :: as) (a :: bs)) : ∃ c cs, bs = c :: cs ∧ Parting as (c :: cs) := by
  have hrest : Parting as bs := (parting_cons_iff.1 h).resolve_left (· rfl)
  cases bs with
  | nil => exact absurd hrest.symm (not_parting_nil as)
  | cons c cs => exact ⟨c, cs, rfl, hrest⟩

theorem split_of_not_mem {cs : List Char} (h : '.' ∉ cs) : split cs = (cs, []) := by
  induction cs with
  | nil => rfl
  | cons c cs ih =>
    have hc : c ≠ '.' := fun he => h (by simp [he])
    rw [split, ih fun hcs => h (List.mem_cons_of_mem _ hcs)]
    simp [hc]

/-- A text is split at a dot between two texts, and on both sides as these are. -/
theorem split_append (cs ds : List Char) :
    split (cs ++ '.' :: ds) = ((split cs).1, (split cs).2 ++ (split ds).1 :: (split ds).2) := by
  induction cs with
  | nil => rfl
  | cons c cs ih =>
    rw [List.cons_append, split, split, ih]
    by_cases hc : c = '.'
    · simp [hc]
    · simp [hc]

theorem dot_not_mem_split (cs : List Char) :
    '.' ∉ (split cs).1 ∧ ∀ part ∈ (split cs).2, '.' ∉ part := by
  induction cs with
  | nil => simp [split]
  | cons c cs ih =>
    rw [split]
    by_cases hc : c = '.'
    · simp only [hc, if_true]
      exact ⟨List.not_mem_nil, List.forall_mem_cons.2 ih⟩
    · simp only [hc, if_false]
      exact ⟨fun h => (List.mem_cons.1 h).elim (fun he => hc he.symm) ih.1, ih.2⟩

theorem segments_append (p r : String) : segments (p ++ "." ++ r) = segments p ++ segments r := by
  have hlist : (p ++ "." ++ r).toList = p.toList ++ '.' :: r.toList := by simp
  unfold segments names
  rw [hlist, split_append]
  simp

theorem segments_of_undotted {name : String} (h : '.' ∉ name.toList) : segments name = [name] := by
  unfold segments names
  rw [split_of_not_mem h]
  simp

theorem dot_not_mem_of_mem_segments {path name : String} (h : name ∈ segments path) :
    '.' ∉ name.toList := by
  obtain ⟨hfirst, hothers⟩ := dot_not_mem_split path.toList
  unfold segments names at h
  rcases List.mem_cons.1 h with rfl | hmem
  · simpa using hfirst
  · obtain ⟨part, hpart, rfl⟩ := List.mem_map.1 hmem
    simpa using hothers part hpart

/-- Names without dots make up a path. -/
theorem exists_segments_eq {name : String} {rest : List String}
    (h : ∀ s ∈ name :: rest, '.' ∉ s.toList) : ∃ path, segments path = name :: rest := by
  induction rest generalizing name with
  | nil => exact ⟨name, segments_of_undotted (h name List.mem_cons_self)⟩
  | cons next rest ih =>
    obtain ⟨hname, hrest⟩ := List.forall_mem_cons.1 h
    obtain ⟨path, hpath⟩ := ih hrest
    refine ⟨name ++ "." ++ path, ?_⟩
    rw [segments_append, segments_of_undotted hname, hpath]
    rfl

end Path

namespace Document

open DocumentStore.Path (Parting segments)

/-- A name without dots leads to the field of that name. -/
theorem getPath?_of_undotted {d : Document} {field : String}
    (h : Path.isDotted field = false) : d.getPath? field = d.get? field := by
  have hnames : Path.names field = (field, []) := by
    have hdot : '.' ∉ field.toList := by
      simpa [Path.isDotted] using h
    simp [Path.names, Path.split_of_not_mem hdot]
  rw [getPath?, hnames]
  rfl

/-! ## One name further -/

/-- The document that a path leads into behind a name: the nested one, an empty one where there is
nothing or null, and none at any other value. -/
def within? (d : Document) (name : String) : Option Document :=
  match d.get? name with
  | some (.map nested) => some nested
  | none | some .null => some .nil
  | some _ => none

@[simp]
theorem within?_insert_map (d : Document) (name : String) (nested : Document) :
    (d.insert name (.map nested)).within? name = some nested := by
  rw [within?, get?_insert_self]

theorem getIn?_nil (name : String) (rest : List String) :
    getIn? .nil name rest = none := by
  cases rest <;> rfl

theorem getIn?_cons (d : Document) (name next : String) (rest : List String) :
    d.getIn? name (next :: rest) = (d.within? name).bind fun nested => nested.getIn? next rest := by
  rw [getIn?, within?]
  cases hget : d.get? name with
  | none => exact (getIn?_nil next rest).symm
  | some v =>
    cases v with
    | null => exact (getIn?_nil next rest).symm
    | _ => rfl

theorem putIn_cons_of_within {d nested : Document} {name : String} (value : Value)
    (hname : name ≠ "") (hwithin : d.within? name = some nested) (next : String)
    (rest : List String) :
    d.putIn name value (next :: rest) =
      (nested.putIn next value rest).map fun changed => d.insert name (.map changed) := by
  rw [within?] at hwithin
  rw [putIn, if_neg hname]
  cases hget : d.get? name with
  | none =>
    rw [hget] at hwithin
    cases hwithin
    cases putIn .nil next value rest <;> rfl
  | some v =>
    rw [hget] at hwithin
    cases v with
    | null =>
      cases hwithin
      cases putIn .nil next value rest <;> rfl
    | map e =>
      cases hwithin
      dsimp only
      cases nested.putIn next value rest <;> rfl
    | _ => cases hwithin

theorem putIn_cons_of_blocked {d : Document} {name : String} (value : Value)
    (hwithin : d.within? name = none) (next : String) (rest : List String) :
    ∃ e, d.putIn name value (next :: rest) = .error e := by
  rw [within?] at hwithin
  rw [putIn]
  by_cases hname : name = ""
  · exact ⟨_, if_pos hname⟩
  · rw [if_neg hname]
    cases hget : d.get? name with
    | none =>
      rw [hget] at hwithin
      cases hwithin
    | some v =>
      rw [hget] at hwithin
      cases v with
      | null => cases hwithin
      | map e => cases hwithin
      | _ => exact ⟨_, rfl⟩

theorem eraseIn_cons {d nested : Document} {name next : String} {rest : List String} {v : Value}
    (hwithin : d.within? name = some nested) (hleads : nested.getIn? next rest = some v) :
    d.eraseIn name (next :: rest) = d.insert name (.map (nested.eraseIn next rest)) := by
  have hpresent : (nested.getIn? next rest).isSome = true := by rw [hleads]; rfl
  rw [within?] at hwithin
  rw [eraseIn]
  cases hget : d.get? name with
  | none =>
    rw [hget] at hwithin
    cases hwithin
    rw [getIn?_nil] at hleads
    cases hleads
  | some w =>
    rw [hget] at hwithin
    cases w with
    | null =>
      cases hwithin
      rw [getIn?_nil] at hleads
      cases hleads
    | map e =>
      cases hwithin
      exact if_pos hpresent
    | _ => cases hwithin

/-- Where a path leads nowhere there is nothing to take out. -/
theorem eraseIn_of_getIn? {d : Document} {name : String} {rest : List String}
    (h : d.getIn? name rest = none) : d.eraseIn name rest = d := by
  cases rest with
  | nil => exact erase_of_get? h
  | cons next rest =>
    rw [eraseIn]
    split
    · rename_i nested hget
      rw [getIn?] at h
      simp only [hget] at h
      rw [h]
      rfl
    · rfl

/-! ## In place -/

/-- A value that cannot be put in place leaves the document as it was. -/
theorem setIn_eq (d : Document) (name : String) (value : Value) (rest : List String) :
    d.setIn name value rest =
      ((d.putIn name value rest).map fun _ => (), (d.putIn name value rest).toOption.getD d) := by
  induction rest generalizing d name with
  | nil =>
    rw [setIn, putIn, put]
    by_cases hname : name = ""
    · rw [if_pos hname, if_pos hname]
      rfl
    · rw [if_neg hname, if_neg hname]
      rfl
  | cons next rest ih =>
    rw [setIn, putIn]
    by_cases hname : name = ""
    · rw [if_pos hname, if_pos hname]
      rfl
    · rw [if_neg hname, if_neg hname]
      -- the nested document that is changed as a copy, or an empty one
      cases hget : d.get? name with
      | none =>
        dsimp only
        rw [ih]
        cases putIn .nil next value rest <;> rfl
      | some v =>
        cases v with
        | null =>
          dsimp only
          rw [ih]
          cases putIn .nil next value rest <;> rfl
        | map nested =>
          dsimp only
          rw [ih]
          cases putIn nested next value rest <;> rfl
        | _ => rfl

/-- What is taken out is what the path leads to. -/
theorem removeIn_eq (d : Document) (name : String) (rest : List String) :
    d.removeIn name rest = (d.getIn? name rest, d.eraseIn name rest) := by
  induction rest generalizing d name with
  | nil => rfl
  | cons next rest ih =>
    rw [removeIn, getIn?, eraseIn]
    cases hget : d.get? name with
    | none => rfl
    | some v =>
      cases v with
      | map nested =>
        dsimp only
        rw [ih]
        cases getIn? nested next rest <;> rfl
      | _ => rfl

/-! ## Reading what was written -/

theorem getIn?_congr {d e : Document} {name : String} (h : d.get? name = e.get? name)
    (rest : List String) : d.getIn? name rest = e.getIn? name rest := by
  cases rest with
  | nil => exact h
  | cons next rest => rw [getIn?, getIn?, h]

theorem getIn?_insert_of_ne {d : Document} {name m : String} (v : Value) (h : m ≠ name)
    (ms : List String) : (d.insert name v).getIn? m ms = d.getIn? m ms :=
  getIn?_congr (get?_insert_of_ne v h) ms

/-- A path that goes on reads inside the value that the first part leads to. -/
theorem getIn?_append (d : Document) (name : String) (rest : List String) (m : String)
    (ms : List String) :
    d.getIn? name (rest ++ m :: ms) =
      (d.getIn? name rest).bind fun v => v.asDocument?.bind fun e => e.getIn? m ms := by
  induction rest generalizing d name with
  | nil =>
    rw [List.nil_append, getIn?, getIn?]
    cases hget : d.get? name with
    | none => rfl
    | some v => cases v <;> rfl
  | cons next rest ih =>
    rw [List.cons_append, getIn?_cons, getIn?_cons]
    cases hwithin : d.within? name with
    | none => rfl
    | some nested => exact ih nested next

/-! ## Writing -/

@[simp]
theorem putIn_nil_eq_ok {d d' : Document} {name : String} {value : Value} :
    d.putIn name value [] = .ok d' ↔ name ≠ "" ∧ d' = d.insert name value := by
  rw [putIn, put]
  by_cases hname : name = ""
  · simp [hname]
  · simp [hname, eq_comm]

/-- All that writing behind a name can do. -/
theorem putIn_cons_eq_ok {d d' : Document} {name next : String} {value : Value}
    {rest : List String} :
    d.putIn name value (next :: rest) = .ok d' ↔
      name ≠ "" ∧ ∃ nested changed, d.within? name = some nested ∧
        nested.putIn next value rest = .ok changed ∧ d' = d.insert name (.map changed) := by
  by_cases hname : name = ""
  · rw [putIn, if_pos hname]
    simp [hname]
  · cases hwithin : d.within? name with
    | none =>
      obtain ⟨e, he⟩ := putIn_cons_of_blocked value hwithin next rest
      simp [he]
    | some nested =>
      rw [putIn_cons_of_within value hname hwithin]
      cases hput : nested.putIn next value rest with
      | error e => simp [Except.map, hput]
      | ok changed => simp [Except.map, hput, hname, eq_comm]

theorem getIn?_of_putIn {d d' : Document} {name : String} {value : Value} {rest : List String}
    (h : d.putIn name value rest = .ok d') : d'.getIn? name rest = some value := by
  induction rest generalizing d d' name with
  | nil =>
    obtain ⟨-, rfl⟩ := putIn_nil_eq_ok.1 h
    exact get?_insert_self d name value
  | cons next rest ih =>
    obtain ⟨-, nested, changed, -, hput, rfl⟩ := putIn_cons_eq_ok.1 h
    rw [getIn?_cons, within?_insert_map]
    exact ih hput

/-- Writing leaves alone what a path leads to that parts from the written one. -/
theorem getIn?_of_putIn_of_parting {d d' : Document} {name m : String} {value : Value}
    {rest ms : List String} (h : d.putIn name value rest = .ok d')
    (hparts : Parting (name :: rest) (m :: ms)) : d'.getIn? m ms = d.getIn? m ms := by
  induction rest generalizing d d' name m ms with
  | nil =>
    obtain ⟨-, rfl⟩ := putIn_nil_eq_ok.1 h
    exact getIn?_insert_of_ne value hparts.ne_of_single ms
  | cons next rest ih =>
    obtain ⟨-, nested, changed, hwithin, hput, rfl⟩ := putIn_cons_eq_ok.1 h
    by_cases hne : m = name
    · subst hne
      obtain ⟨k, ks, rfl, hrest⟩ := hparts.exists_of_cons
      rw [getIn?_cons, getIn?_cons, within?_insert_map, hwithin]
      exact ih hput hrest
    · exact getIn?_insert_of_ne _ hne ms

/-! ## Whether a value can be written -/

/-- Whether every beginning of a chain of names that leads to a value leads to null or to a document:
nothing else lies in the way. -/
def Passable (d : Document) (name : String) (rest : List String) : Prop :=
  ∀ m ms w, m :: ms <+: name :: rest → m :: ms ≠ name :: rest → d.getIn? m ms = some w →
    w = .null ∨ ∃ e, w = .map e

theorem passable_nil (d : Document) (name : String) : d.Passable name [] := by
  intro m ms w hbegins hne
  obtain ⟨rfl, hms⟩ := List.cons_prefix_cons.1 hbegins
  exact absurd (by rw [List.prefix_nil.1 hms]) hne

theorem passable_cons {d : Document} {name next : String} {rest : List String} :
    d.Passable name (next :: rest) ↔
      ∃ nested, d.within? name = some nested ∧ nested.Passable next rest := by
  constructor
  · intro h
    -- the chain of the first name alone: there is a document to go on in
    have hfirst : ∀ w, d.get? name = some w → w = .null ∨ ∃ e, w = .map e := fun w hget =>
      h name [] w (by simp) (by simp) hget
    obtain ⟨nested, hwithin⟩ : ∃ nested, d.within? name = some nested := by
      unfold within?
      cases hget : d.get? name with
      | none => exact ⟨_, rfl⟩
      | some w =>
        obtain rfl | ⟨e, rfl⟩ := hfirst w hget
        · exact ⟨_, rfl⟩
        · exact ⟨_, rfl⟩
    refine ⟨nested, hwithin, fun m ms w hbegins hne hleads => ?_⟩
    apply h name (m :: ms) w
    · exact List.cons_prefix_cons.2 ⟨rfl, hbegins⟩
    · exact fun heq => hne (List.cons.inj heq).2
    · rw [getIn?_cons, hwithin]
      exact hleads
  · rintro ⟨nested, hwithin, hnested⟩ m ms w hbegins hne hleads
    obtain ⟨rfl, hms⟩ := List.cons_prefix_cons.1 hbegins
    cases ms with
    | nil =>
      rw [within?] at hwithin
      have hget : d.get? m = some w := hleads
      rw [hget] at hwithin
      cases w with
      | null => exact .inl rfl
      | map e => exact .inr ⟨e, rfl⟩
      | _ => cases hwithin
    | cons k ks =>
      rw [getIn?_cons, hwithin] at hleads
      exact hnested k ks w hms (fun heq => hne (by rw [heq])) hleads

/-- A value can be written if no name is empty and nothing lies in the way. -/
theorem exists_putIn_eq_ok_iff {d : Document} {name : String} {value : Value} {rest : List String} :
    (∃ d', d.putIn name value rest = .ok d') ↔
      (∀ s ∈ name :: rest, s ≠ "") ∧ d.Passable name rest := by
  induction rest generalizing d name with
  | nil => simp [passable_nil]
  | cons next rest ih =>
    rw [passable_cons, List.forall_mem_cons]
    constructor
    · rintro ⟨d', h⟩
      obtain ⟨hname, nested, changed, hwithin, hput, -⟩ := putIn_cons_eq_ok.1 h
      obtain ⟨hrest, hpassable⟩ := ih.1 ⟨changed, hput⟩
      exact ⟨⟨hname, hrest⟩, nested, hwithin, hpassable⟩
    · rintro ⟨⟨hname, hrest⟩, nested, hwithin, hpassable⟩
      obtain ⟨changed, hput⟩ := ih.2 ⟨hrest, hpassable⟩
      exact ⟨_, putIn_cons_eq_ok.2 ⟨hname, nested, changed, hwithin, hput, rfl⟩⟩

/-! ## Taking out -/

theorem getIn?_erase_of_ne (d : Document) {name m : String} (h : m ≠ name) (ms : List String) :
    getIn? (Fields.erase d name) m ms = d.getIn? m ms := by
  apply getIn?_congr
  rw [Fields.get?_erase, if_neg h]

theorem getIn?_eraseIn_self (d : Document) (name : String) (rest : List String) :
    (d.eraseIn name rest).getIn? name rest = none := by
  cases hleads : d.getIn? name rest with
  | none => rw [eraseIn_of_getIn? hleads, hleads]
  | some v =>
    induction rest generalizing d name with
    | nil => exact (Fields.get?_erase d name name).trans (if_pos rfl)
    | cons next rest ih =>
      rw [getIn?_cons] at hleads
      obtain ⟨nested, hwithin, hnested⟩ := Option.bind_eq_some_iff.1 hleads
      rw [eraseIn_cons hwithin hnested, getIn?_cons, within?_insert_map]
      exact ih nested next hnested

/-- Taking out leaves alone what a path leads to that parts from the one taken out. -/
theorem getIn?_eraseIn_of_parting {d : Document} {name m : String} {rest ms : List String}
    (hparts : Parting (name :: rest) (m :: ms)) :
    (d.eraseIn name rest).getIn? m ms = d.getIn? m ms := by
  cases hleads : d.getIn? name rest with
  | none => rw [eraseIn_of_getIn? hleads]
  | some v =>
    induction rest generalizing d name m ms with
    | nil => exact getIn?_erase_of_ne d hparts.ne_of_single ms
    | cons next rest ih =>
      rw [getIn?_cons] at hleads
      obtain ⟨nested, hwithin, hnested⟩ := Option.bind_eq_some_iff.1 hleads
      rw [eraseIn_cons hwithin hnested]
      by_cases hne : m = name
      · subst hne
        obtain ⟨k, ks, rfl, hrest⟩ := hparts.exists_of_cons
        rw [getIn?_cons, getIn?_cons, within?_insert_map, hwithin]
        exact ih hrest hnested
      · exact getIn?_insert_of_ne _ hne ms

/-! ## The laws of paths -/

theorem getPath?_of_segments {d : Document} {path m : String} {ms : List String}
    (h : segments path = m :: ms) : d.getPath? path = d.getIn? m ms := by
  obtain ⟨hm, hms⟩ := List.cons.inj h
  rw [getPath?, hm, hms]

theorem getPath?_append (d : Document) (p r : String) :
    d.getPath? (p ++ "." ++ r) =
      (d.getPath? p).bind fun v => v.asDocument?.bind fun e => e.getPath? r := by
  rw [getPath?_of_segments (Path.segments_append p r)]
  exact getIn?_append d _ _ _ _

theorem setPath_eq (d : Document) (path : String) (value : Value) :
    d.setPath path value =
      ((d.putPath path value).map fun _ => (), (d.putPath path value).toOption.getD d) :=
  setIn_eq d _ value _

theorem removePath_eq (d : Document) (path : String) :
    d.removePath path = (d.getPath? path, d.erasePath path) :=
  removeIn_eq d _ _

/-- Every list of names that a path begins with is a path of its own. -/
theorem passable_iff_forall_path {d : Document} {path : String} :
    d.Passable (Path.names path).1 (Path.names path).2 ↔
      ∀ q w, segments q <+: segments path → segments q ≠ segments path → d.getPath? q = some w →
        w = .null ∨ ∃ e, w = .map e := by
  constructor
  · intro h q w
    exact h _ _ w
  · intro h m ms w hbegins hne hleads
    obtain ⟨q, hq⟩ := Path.exists_segments_eq fun s hs =>
      Path.dot_not_mem_of_mem_segments (hbegins.subset hs)
    apply h q w
    · rwa [hq]
    · rwa [hq]
    · rwa [getPath?_of_segments hq]

theorem exists_putPath_eq_ok_iff {d : Document} {path : String} {value : Value} :
    (∃ d', d.putPath path value = .ok d') ↔
      (∀ s ∈ segments path, s ≠ "") ∧
        ∀ q w, segments q <+: segments path → segments q ≠ segments path →
          d.getPath? q = some w → w = .null ∨ ∃ e, w = .map e := by
  rw [← passable_iff_forall_path]
  exact exists_putIn_eq_ok_iff

/-- What the paths of a document lead to after a value was written along one of them. -/
structure Written (d : Document) (path : String) (value : Value) (after : Document) : Prop where
  self : after.getPath? path = some value
  inside : ∀ r, after.getPath? (path ++ "." ++ r) = value.asDocument?.bind fun e => e.getPath? r
  beside : ∀ q, Parting (segments path) (segments q) → after.getPath? q = d.getPath? q

/-- What the paths of a document lead to after the value along one of them was taken out. -/
structure Removed (d : Document) (path : String) (after : Document) : Prop where
  self : after.getPath? path = none
  beside : ∀ q, Parting (segments path) (segments q) → after.getPath? q = d.getPath? q

theorem written_of_putPath {d d' : Document} {path : String} {value : Value}
    (h : d.putPath path value = .ok d') : Written d path value d' := by
  have hself : d'.getPath? path = some value := getIn?_of_putIn h
  refine ⟨hself, fun r => ?_, fun q hparts => getIn?_of_putIn_of_parting h hparts⟩
  rw [getPath?_append, hself]
  rfl

theorem removed_erasePath (d : Document) (path : String) : Removed d path (d.erasePath path) where
  self := getIn?_eraseIn_self d _ _
  beside _ hparts := getIn?_eraseIn_of_parting hparts

/-- The laws of reading, writing and removing along a path.  A value can be written if no name of the
path is empty and no beginning of the path leads to something other than null or a document. A written
value is what the path leads to then, its own fields are what longer paths lead to, and a value that
cannot be written changes nothing. What is removed is what the path led to, it is gone then, and
removing nothing changes nothing. Writing and removing leave every path alone that parts from
theirs. -/
theorem paths_lawful (d : Document) (path : String) (value : Value) :
    ((d.setPath path value).1 = .ok () ↔
        (∀ s ∈ segments path, s ≠ "") ∧
          ∀ q w, segments q <+: segments path → segments q ≠ segments path →
            d.getPath? q = some w → w = .null ∨ ∃ e, w = .map e) ∧
      (∀ e, (d.setPath path value).1 = .error e → (d.setPath path value).2 = d) ∧
      ((d.setPath path value).1 = .ok () → Written d path value (d.setPath path value).2) ∧
      (d.removePath path).1 = d.getPath? path ∧
      (∀ removed, (d.removePath path).1 = some removed → Removed d path (d.removePath path).2) ∧
      ((d.removePath path).1 = none → (d.removePath path).2 = d) := by
  have hset := setPath_eq d path value
  have hremove := removePath_eq d path
  refine ⟨?_, ?_, ?_, ?_, ?_, ?_⟩
  · have hwritable : (∃ d', d.putPath path value = .ok d') ↔ _ := exists_putPath_eq_ok_iff
    rw [hset, ← hwritable]
    cases d.putPath path value <;> simp [Except.map]
  · intro e he
    rw [hset] at he ⊢
    cases hput : d.putPath path value with
    | error _ => rfl
    | ok d' => simp [Except.map, hput] at he
  · intro hok
    rw [hset] at hok ⊢
    cases hput : d.putPath path value with
    | error _ => simp [Except.map, hput] at hok
    | ok d' => exact written_of_putPath hput
  · rw [hremove]
  · intro removed _
    rw [hremove]
    exact removed_erasePath d path
  · intro hnone
    rw [hremove] at hnone ⊢
    exact eraseIn_of_getIn? hnone

end Document

end DocumentStore

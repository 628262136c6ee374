import DocumentStore.Proofs.Store.TableContents
import Mathlib.Data.List.Forall2

/-!
# The entries under one name

A store holds the entries of many collections.  A key belongs to the one whose name is its first part.
What is looked up, scanned or written at keys of one name depends on the entries under this name alone
(`Table.owned`), and leaves all other entries as they are.  So two tables that agree under a name stay
in agreement under the same requests; `Forall₂` relates their entries one by one.
-/

namespace DocumentStore

namespace Key

def belongsTo (name : String) (key : Key) : Bool :=
  match key.parts with
  | .string s :: _ => s == name
  | _ => false

theorem belongsTo_iff {name : String} {key : Key} :
    key.belongsTo name = true ↔ key.parts.head? = some (.string name) := by
  unfold belongsTo
  split
  · rename_i s rest hparts
    rw [hparts]
    simp
  · rename_i hnot
    cases hparts : key.parts with
    | nil => simp
    | cons p rest =>
      simp only [List.head?_cons, Option.some.injEq, Bool.false_eq_true, false_iff]
      rintro rfl
      exact hnot name rest hparts

theorem belongsTo_of_same {name : String} {a b : Key} (h : a.same b = true)
    (hb : b.belongsTo name = true) : a.belongsTo name = true :=
  belongsTo_iff.2 (head?_of_same h (belongsTo_iff.1 hb))

theorem belongsTo_of_isUnder {name : String} {key base : Key} (h : key.isUnder base = true)
    (hbase : base.belongsTo name = true) : key.belongsTo name = true :=
  belongsTo_iff.2 (head?_of_isUnder h (belongsTo_iff.1 hbase))

end Key

namespace Table

variable {name : String} {t t' : Table} {v v' : Version}

def owned (name : String) (t : Table) : List Entry := t.entries.filter (·.key.belongsTo name)

theorem mem_owned {e : Entry} :
    e ∈ t.owned name ↔ e ∈ t.entries ∧ e.key.belongsTo name = true :=
  List.mem_filter

theorem find?_eq_find?_owned {key : Key} (h : key.belongsTo name = true) :
    t.find? key = (t.owned name).find? (·.key.same key) := by
  rw [owned, List.find?_filter, find?]
  congr 1
  funext e
  cases hsame : e.key.same key with
  | false => simp
  | true => simp [Key.belongsTo_of_same hsame h]

theorem scan_eq_take_owned {base : Key} {after : Option Key} {limit : Nat}
    (hbase : base.belongsTo name = true) (hafter : ∀ key ∈ after, key.isUnder base = true) :
    t.scan base after limit =
      (((t.owned name).filter (·.key.isUnder base)).filter
        fun e => compare (after.getD base) e.key == .lt).take limit := by
  have hstart : (compare base (after.getD base)).isLE = true := by
    cases after with
    | none => simp
    | some key =>
      rw [Option.getD_some, Key.lt_of_isUnder (hafter key rfl)]
      rfl
  have hunder : t.under base = (t.owned name).filter (·.key.isUnder base) := by
    rw [under, owned, List.filter_filter]
    refine List.filter_congr fun e _ => ?_
    cases h : e.key.isUnder base with
    | false => simp
    | true => simp [Key.belongsTo_of_isUnder h hbase]
  rw [scan_eq_take limit hstart, hunder]

theorem owned_insert {e : Entry} (h : e.key.belongsTo name = true) :
    (t.insert e).owned name =
      (t.owned name).filter (compare ·.key e.key == .lt) ++
        e :: (t.owned name).filter (compare e.key ·.key == .lt) := by
  have hcomm : ∀ p : Entry → Bool, (t.entries.filter p).filter (·.key.belongsTo name) =
      (t.owned name).filter p := fun p => by
    rw [owned, List.filter_filter, List.filter_filter]
    exact List.filter_congr fun _ _ => Bool.and_comm _ _
  show List.filter _ (t.before e.key ++ e :: t.behind e.key) = _
  rw [List.filter_append, List.filter_cons, if_pos h]
  congr 1
  · exact hcomm _
  · rw [behind, hcomm]

theorem owned_erase {key : Key} :
    (t.erase key).owned name = (t.owned name).filter (!·.key.same key) := by
  show List.filter _ (t.entries.filter _) = _
  rw [owned, List.filter_filter, List.filter_filter]
  exact List.filter_congr fun _ _ => Bool.and_comm _ _

/-- Writes at keys of a name leave the entries of other names as they are. -/
theorem mem_applyAll_of_not_belongsTo {ms : List Mutation} {e : Entry}
    (hms : ∀ m ∈ ms, m.key.belongsTo name = true) (he : e.key.belongsTo name = false) :
    e ∈ (t.applyAll v ms).entries ↔ e ∈ t.entries := by
  induction ms generalizing t with
  | nil => rfl
  | cons m ms ih =>
    obtain ⟨hm, hms⟩ := List.forall_mem_cons.1 hms
    refine (ih (t := t.apply v m) hms).trans ?_
    rw [mem_apply]
    constructor
    · rintro (⟨key, value, rfl, rfl⟩ | ⟨hmem, _⟩)
      · rw [show key.belongsTo name = true from hm] at he
        cases he
      · exact hmem
    · intro hmem
      refine .inr ⟨hmem, fun hsame => ?_⟩
      rw [Key.belongsTo_of_same hsame hm] at he
      cases he

/-! ## Tables that agree under a name -/

section Agreement

variable {L : Entry → Entry → Prop} (hL : ∀ {e e' : Entry}, L e e' → e'.key = e.key)

include hL

theorem forall₂_filter (p : Key → Bool) {l l' : List Entry} (h : List.Forall₂ L l l') :
    List.Forall₂ L (l.filter fun e => p e.key) (l'.filter fun e => p e.key) := by
  induction h with
  | nil => exact .nil
  | @cons e e' l l' he _ ih =>
    rw [List.filter_cons, List.filter_cons, hL he]
    split
    · exact .cons he ih
    · exact ih

theorem find?_rel {key : Key} (hkey : key.belongsTo name = true)
    (h : List.Forall₂ L (t.owned name) (t'.owned name)) :
    Option.Rel L (t.find? key) (t'.find? key) := by
  rw [find?_eq_find?_owned hkey, find?_eq_find?_owned hkey]
  generalize t.owned name = l at h ⊢
  generalize t'.owned name = l' at h ⊢
  induction h with
  | nil => exact .none
  | cons he _ ih =>
    rw [List.find?_cons, List.find?_cons, hL he]
    split
    · exact .some he
    · exact ih

theorem forall₂_scan {base : Key} {after : Option Key} (limit : Nat)
    (hbase : base.belongsTo name = true) (hafter : ∀ key ∈ after, key.isUnder base = true)
    (h : List.Forall₂ L (t.owned name) (t'.owned name)) :
    List.Forall₂ L (t.scan base after limit) (t'.scan base after limit) := by
  rw [scan_eq_take_owned hbase hafter, scan_eq_take_owned hbase hafter]
  refine List.forall₂_take limit ?_
  exact forall₂_filter hL (compare (after.getD base) · == .lt)
    (forall₂_filter hL (·.isUnder base) h)

theorem forall₂_apply {m : Mutation} (hm : m.key.belongsTo name = true)
    (hset : ∀ key value, m = .set key value → L ⟨key, value, v⟩ ⟨key, value, v'⟩)
    (h : List.Forall₂ L (t.owned name) (t'.owned name)) :
    List.Forall₂ L ((t.apply v m).owned name) ((t'.apply v' m).owned name) := by
  cases m with
  | set key value =>
    show List.Forall₂ L ((t.insert ⟨key, value, v⟩).owned name)
      ((t'.insert ⟨key, value, v'⟩).owned name)
    rw [owned_insert hm, owned_insert hm]
    refine List.rel_append (forall₂_filter hL (compare · key == .lt) h) (.cons ?_ ?_)
    · exact hset key value rfl
    · exact forall₂_filter hL (compare key · == .lt) h
  | delete key =>
    show List.Forall₂ L ((t.erase key).owned name) ((t'.erase key).owned name)
    rw [owned_erase, owned_erase]
    exact forall₂_filter hL (!·.same key) h

/-- The same writes keep tables in agreement. -/
theorem forall₂_applyAll {ms : List Mutation} (hms : ∀ m ∈ ms, m.key.belongsTo name = true)
    (hset : ∀ key value, .set key value ∈ ms → L ⟨key, value, v⟩ ⟨key, value, v'⟩)
    (h : List.Forall₂ L (t.owned name) (t'.owned name)) :
    List.Forall₂ L ((t.applyAll v ms).owned name) ((t'.applyAll v' ms).owned name) := by
  induction ms generalizing t t' with
  | nil => exact h
  | cons m ms ih =>
    obtain ⟨hm, hms⟩ := List.forall_mem_cons.1 hms
    refine ih hms (fun key value hmem => hset key value (List.mem_cons_of_mem _ hmem)) ?_
    exact forall₂_apply hL hm (fun key value he => hset key value (he ▸ List.mem_cons_self)) h

end Agreement

end Table

end DocumentStore

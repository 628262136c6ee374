/-!
Tables of named items in the order in which the names were first given. A later item of a name takes
the place of the earlier one.
-/

namespace DocumentStore

structure FieldTable (α : Type) where
  entries : List (String × α)
  distinct : (entries.map Prod.fst).Nodup

namespace FieldTable

variable {α : Type}

def empty : FieldTable α := ⟨[], .nil⟩

instance : Inhabited (FieldTable α) := ⟨empty⟩

def isEmpty (t : FieldTable α) : Bool := t.entries.isEmpty

def names (t : FieldTable α) : List String := t.entries.map Prod.fst

def contains (t : FieldTable α) (name : String) : Bool := t.names.contains name

def get? (t : FieldTable α) (name : String) : Option α := t.entries.lookup name

def replace (name : String) (item : α) (entries : List (String × α)) : List (String × α) :=
  entries.map fun entry => if entry.1 = name then (entry.1, item) else entry

theorem map_fst_replace (name : String) (item : α) (entries : List (String × α)) :
    (replace name item entries).map Prod.fst = entries.map Prod.fst := by
  simp only [replace, List.map_map]
  exact List.map_congr_left fun entry _ => by simp only [Function.comp]; split <;> rfl

/-- Puts an item under a name, at the place of the name if it has one, else at the end. -/
def insert (t : FieldTable α) (name : String) (item : α) : FieldTable α :=
  if h : name ∈ t.entries.map Prod.fst then
    ⟨replace name item t.entries, by rw [map_fst_replace]; exact t.distinct⟩
  else
    ⟨t.entries ++ [(name, item)], by
      rw [List.map_append, List.nodup_append]
      refine ⟨t.distinct, by simp, ?_⟩
      intro a ha b hb
      simp only [List.map_cons, List.map_nil, List.mem_singleton] at hb
      exact fun hab => h (hb ▸ hab ▸ ha)⟩

def erase (t : FieldTable α) (name : String) : FieldTable α :=
  ⟨t.entries.filter (·.1 != name), t.distinct.sublist (List.filter_sublist.map _)⟩

def insertAll (t : FieldTable α) (entries : List (String × α)) : FieldTable α :=
  entries.foldl (fun t (name, item) => t.insert name item) t

def ofList (entries : List (String × α)) : FieldTable α := empty.insertAll entries

def merge (t u : FieldTable α) : FieldTable α := t.insertAll u.entries

def isDisjoint (t u : FieldTable α) : Bool := u.names.all fun name => !t.contains name

end FieldTable

end DocumentStore

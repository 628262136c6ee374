import DocumentStore.Proofs.Collection.Writing

/-!
# The operations of a collection

Each operation commits only what its purpose allows, however the operations of other clients run in
between, and if it succeeds its reply stands for its commits (`Operation.upholds`).
-/

namespace DocumentStore

inductive Operation where
  | insertOne (d : Document)
  | insertMany (ds : List Document)
  | updateOne (q : Query) (u : Update)
  | updateMany (q : Query) (u : Update)
  | updateWith (q : Query) (u : Update) (o : WriteOptions)
  | deleteOne (q : Query)
  | deleteMany (q : Query)
  | deleteWith (q : Query) (o : WriteOptions)
  | dropAll
  | find (q : Query) (ops : List CursorOp)

inductive Reply where
  | documents (ds : List Document)
  | count (n : Nat)

namespace Operation

def program (c : Collection) (fuel : Nat) : Operation → Action Reply
  | insertOne d => return .documents [← c.insertOne d]
  | insertMany ds => return .documents (← c.insertMany ds)
  | updateOne q u => return .documents (← c.updateOne q u fuel).toList
  | updateMany q u => return .documents (← c.updateMany q u fuel)
  | updateWith q u o => return .documents (← c.updateWith q u o fuel)
  | deleteOne q => return .documents (← c.deleteOne q fuel).toList
  | deleteMany q => return .documents (← c.deleteMany q fuel)
  | deleteWith q o => return .documents (← c.deleteWith q o fuel)
  | dropAll => return .count (← c.dropAll fuel)
  | find q ops => return .documents (← Cursor.getMany ⟨c, c.plan q.compile, ops⟩ fuel)

def purpose : Operation → Purpose
  | insertOne _ | insertMany _ => .insert
  | updateOne q u | updateMany q u | updateWith q u _ => .change (.update u) q.compile
  | deleteOne q | deleteMany q | deleteWith q _ => .change .delete q.compile
  | dropAll => .change .delete Query.all.compile
  | find .. => .read

end Operation

def Purpose.Explains (c : Collection) : Purpose → List Commit → List Document → Prop
  | read, ws, _ => ws = []
  | insert, ws, ds => c.Stores ws ds
  | change ch q, ws, ds => c.Reports ch q ws ds

/-- A reply stands for the commits of its client; a count says how many results there are. -/
def Reply.Explains (c : Collection) (p : Purpose) (ws : List Commit) : Reply → Prop
  | documents ds => p.Explains c ws ds
  | count n => ∃ ds, p.Explains c ws ds ∧ n = ds.length

namespace Operation

variable {c : Collection} {v : Standpoint} {P : Commit → Prop}

/-- The reports of a change account for the reply of a client that started without commits. -/
theorem explains_of_yields {change : Change} {q : CompiledQuery} {results : List Document}
    {v' : Standpoint} (hcommits : v.commits = []) (h : c.Yields change q v results v') :
    (Purpose.change change q).Explains c v'.commits results := by
  obtain ⟨ws, hws, hreports⟩ := h.commits
  rw [hcommits, List.nil_append] at hws
  rw [hws]
  exact hreports

theorem toList_head? {α : Type} {l : List α} (h : l.length ≤ 1) : l.head?.toList = l := by
  rcases l with _ | ⟨a, _ | ⟨b, rest⟩⟩
  · rfl
  · rfl
  · simp at h

theorem change_explains (hc : c.WellIndexed) (change : Change) (q : Query) (o : WriteOptions)
    (fuel : Nat) (hv : c.Sound v.memory) (hcommits : v.commits = []) :
    Action.Upholds (c.changing change q.compile)
      (fun ds v' => (Purpose.change change q.compile).Explains c v'.commits ds)
      (c.change change q o fuel) v :=
  (Collection.change_yields hc q o fuel hv).imp fun _ _ hv' => explains_of_yields hcommits hv'.1

theorem changeOnce_explains (hc : c.WellIndexed) (change : Change) (q : Query) (fuel : Nat)
    (hv : c.Sound v.memory) (hcommits : v.commits = []) :
    Action.Upholds (c.changing change q.compile)
      (fun d v' => (Purpose.change change q.compile).Explains c v'.commits d.toList)
      (do return (← c.change change q .once fuel).head?) v := by
  refine Action.Upholds.bind ((Collection.change_yields hc q .once fuel hv).imp
    fun results v' hv' => ?_)
  refine .pure ?_
  rw [toList_head? (hv'.2 rfl)]
  exact explains_of_yields hcommits hv'.1

/-- Whatever the other clients do, an operation commits only what its purpose allows, and its reply
stands for its commits. -/
theorem upholds (hc : c.WellIndexed) (op : Operation) (fuel : Nat) (hv : c.Sound v.memory)
    (hcommits : v.commits = []) :
    Action.Upholds (c.sharing (op.purpose.Allows c))
      (fun reply v' => reply.Explains c op.purpose v'.commits) (op.program c fuel) v := by
  cases op with
  | insertOne d =>
    exact .bind ((Collection.insertOne_stores hc d hv hcommits).imp fun d v' hv' => .pure hv')
  | insertMany ds =>
    exact .bind ((Collection.insertMany_stores hc ds hv hcommits).imp fun ds v' hv' => .pure hv')
  | updateOne q u =>
    exact .bind ((changeOnce_explains hc (.update u) q fuel hv hcommits).imp
      fun d v' hv' => .pure hv')
  | updateMany q u =>
    exact .bind ((change_explains hc (.update u) q {} fuel hv hcommits).imp
      fun ds v' hv' => .pure hv')
  | updateWith q u o =>
    exact .bind ((change_explains hc (.update u) q o fuel hv hcommits).imp
      fun ds v' hv' => .pure hv')
  | deleteOne q =>
    exact .bind ((changeOnce_explains hc .delete q fuel hv hcommits).imp fun d v' hv' => .pure hv')
  | deleteMany q =>
    exact .bind ((change_explains hc .delete q {} fuel hv hcommits).imp fun ds v' hv' => .pure hv')
  | deleteWith q o =>
    exact .bind ((change_explains hc .delete q o fuel hv hcommits).imp fun ds v' hv' => .pure hv')
  | dropAll =>
    refine .bind (.bind ((change_explains hc .delete .all {} fuel hv hcommits).imp
      fun ds v' hv' => ?_))
    exact .pure (.pure ⟨ds, hv', rfl⟩)
  | find q ops =>
    exact Action.Reads.bindUpholds (Cursor.getMany_reads _ ops fuel hv) fun ds v' hv' _ =>
      .pure (hv'.commits_eq.trans hcommits)

end Operation

end DocumentStore

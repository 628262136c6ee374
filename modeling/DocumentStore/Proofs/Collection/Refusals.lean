import DocumentStore.Proofs.Collection.Cursors
import DocumentStore.Proofs.Collection.Operations
import DocumentStore.Proofs.Program.Refusing

/-!
# Operations on a closed store

Every way to documents asks the store whether it is open, or reads an entry, before there is a first
candidate; and every insert ends with a commit.  So on a closed store only what never asks for anything
succeeds, and it gives nothing: an insert of no documents, a query that no document can match, a cursor
that wants no document.
-/

namespace DocumentStore

variable {c : Collection} {plan : Plan} {bound : Option Nat} {fuel : Nat}

theorem Scan.begin_barred (base : Key) (pageSize : Nat) :
    (begin base pageSize).Under .barred fun _ => False := by
  unfold begin
  split
  · exact .throw trivial
  · refine .bind (.lift (Program.Under.imp ?_ Action.isClosed_barred))
    rintro closed rfl
    exact .throw trivial

/-! ## Candidates -/

namespace Candidates

/-- Candidates of which none comes, and nothing is asked for. -/
def Absent (c : Candidates) : Prop := c.source = .nothing

theorem ofPlan_barred :
    (ofPlan c plan bound).Under .barred fun candidates => candidates.Absent ∧
      (plan.strategy = .nothing ∨ bound = some 0) := by
  unfold ofPlan
  split
  · rename_i hbound
    exact .pure ⟨rfl, .inr hbound⟩
  · have hsource : (sourceOf c bound plan.strategy).Under .barred fun source =>
        source = .nothing ∧ plan.strategy = .nothing := by
      cases plan.strategy with
      | nothing => exact .pure ⟨rfl, rfl⟩
      | byId id => exact .bind ((Action.get_barred _).imp fun _ h => h.elim)
      | byIndex field part => exact .bind ((Scan.begin_barred _ _).imp fun _ h => h.elim)
      | everything => exact .bind ((Scan.begin_barred _ _).imp fun _ h => h.elim)
    refine .bind (hsource.imp ?_)
    rintro source ⟨rfl, hstrategy⟩
    exact .pure ⟨rfl, .inl hstrategy⟩

theorem Absent.next_barred {c : Candidates} (h : c.Absent) (hfuel : 0 < fuel) :
    (c.next fuel).Under .barred fun r => r.1 = none := by
  obtain ⟨fuel, rfl⟩ : ∃ n, fuel = n + 1 := ⟨fuel - 1, by omega⟩
  unfold next
  rw [h]
  exact rfl

theorem Absent.collect_barred {c : Candidates} (h : c.Absent) (hfuel : 0 < fuel)
    (limit : Option Nat) : (c.collect fuel limit).Under .barred (· = []) := by
  obtain ⟨fuel, rfl⟩ : ∃ n, fuel = n + 1 := ⟨fuel - 1, by omega⟩
  by_cases hlimit : limit = some 0
  · subst hlimit
    exact .pure rfl
  · rw [collect_succ hlimit]
    refine .bind (.lift (Program.Under.imp ?_ (h.next_barred (Nat.succ_pos fuel))))
    rintro ⟨item, later⟩ rfl
    exact .pure rfl

end Candidates

/-! ## Cursors -/

namespace Cursor

/-- A cursor that gives nothing, whatever is stored: no document can match, or none is wanted. -/
def Vain (cursor : Cursor) : Prop :=
  cursor.plan.strategy = .nothing ∨ cursor.requiredCount = some 0

variable (cursor : Cursor)

theorem getMany_barred (hfuel : 0 < fuel) :
    (cursor.getMany fuel).Under .barred fun ds => ds = [] ∧ cursor.Vain := by
  refine .bind (Candidates.ofPlan_barred.imp ?_)
  rintro candidates ⟨habsent, hvain⟩
  refine .bind ((habsent.collect_barred hfuel _).imp ?_)
  rintro found rfl
  refine .pure ⟨List.length_eq_zero_iff.1 (Nat.le_zero.1 ?_), hvain⟩
  exact CursorOp.length_applyAll_le cursor.ops []

theorem getOne_barred (hfuel : 0 < fuel) :
    (cursor.getOne fuel).Under .barred fun d => d = none ∧ (cursor.withOp (.limit 1)).Vain := by
  refine .bind (((cursor.withOp (.limit 1)).getMany_barred hfuel).imp ?_)
  rintro ds ⟨rfl, hvain⟩
  exact .pure ⟨rfl, hvain⟩

theorem count_barred (hfuel : 0 < fuel) :
    (cursor.count fuel).Under .barred fun n => n = 0 ∧ cursor.Vain := by
  refine .bind ((cursor.getMany_barred hfuel).imp ?_)
  rintro ds ⟨rfl, hvain⟩
  exact .pure ⟨rfl, hvain⟩

theorem iterate_barred (hfuel : 0 < fuel) :
    (cursor.iterate fuel).Under .barred fun items => items = [] ∧ cursor.Vain := by
  obtain ⟨fuel, rfl⟩ : ∃ n, fuel = n + 1 := ⟨fuel - 1, by omega⟩
  unfold iterate DocumentStream.ofCursor
  split
  · refine .bind (.bind (Candidates.ofPlan_barred.imp ?_))
    rintro candidates ⟨habsent, hvain⟩
    have hvain : cursor.Vain := by
      rcases hvain with hstrategy | hbound
      · exact .inl hstrategy
      · cases hbound
    refine .pure (.lift (Program.Under.bind (Program.Under.bind
      (Program.Under.imp ?_ (habsent.next_barred (Nat.succ_pos fuel))))))
    rintro ⟨item, later⟩ rfl
    exact .pure (.pure ⟨rfl, hvain⟩)
  · refine .bind (.bind ((cursor.getMany_barred hfuel).imp ?_))
    rintro ds ⟨rfl, hvain⟩
    exact .pure (.lift (Program.Under.bind (.pure (.pure ⟨rfl, hvain⟩))))

end Cursor

/-! ## Operations -/

namespace Collection

theorem change_barred (change : Change) (q : Query) (o : WriteOptions) (hfuel : 0 < fuel) :
    (c.change change q o fuel).Under .barred fun ds => ds = [] ∧
      (c.plan q.compile).strategy = .nothing := by
  obtain ⟨fuel, rfl⟩ : ∃ n, fuel = n + 1 := ⟨fuel - 1, by omega⟩
  unfold Collection.change
  refine .bind (.ofExcept (.barred fun _ _ => .bind (Candidates.ofPlan_barred.imp ?_)))
  rintro candidates ⟨habsent, hnothing | hbound⟩
  · by_cases honce : o.justOnce = true
    · rw [if_pos honce]
      refine .bind (.lift (Program.Under.imp ?_ (habsent.next_barred (Nat.succ_pos fuel))))
      rintro ⟨item, later⟩ rfl
      exact .pure ⟨rfl, hnothing⟩
    · rw [if_neg honce]
      refine .bind ((habsent.collect_barred hfuel none).imp ?_)
      rintro found rfl
      exact .pure ⟨rfl, hnothing⟩
  · cases hbound

theorem prepare_barred (d : Document) : (c.prepare d).Under .barred fun _ => True := by
  have hcheck : ∀ d : Document, Action.Under .barred (fun _ => True) (do
      Action.ofExcept (c.checkDocument d)
      return (← Action.ofExcept d.requireId, d)) := fun d =>
    .bind (.ofExcept (.barred fun _ _ => .bind (.ofExcept (.barred fun _ _ => .pure trivial))))
  unfold prepare
  split
  · exact .bind (.pure (hcheck d))
  · refine .bind (.lift (Program.Under.imp (fun id _ => ?_) Action.freshId_barred))
    exact .bind (.ofExcept (.barred fun d' _ => hcheck d'))

theorem prepareAll_barred (ds : List Document) : (c.prepareAll ds).Under .barred fun _ => True := by
  induction ds with
  | nil => exact .pure trivial
  | cons d ds ih =>
    exact .bind ((c.prepare_barred d).imp fun _ _ => .bind (ih.imp fun _ _ => .pure trivial))

theorem insertOne_barred (d : Document) : (c.insertOne d).Under .barred fun _ => False := by
  refine .bind ((c.prepare_barred d).imp fun p _ => .bind ((Action.commit_barred _).imp ?_))
  rintro result rfl
  exact .throw trivial

theorem insertMany_barred (ds : List Document) :
    (c.insertMany ds).Under .barred fun stored => stored = [] ∧ ds = [] := by
  unfold insertMany
  split
  · rename_i hempty
    exact .pure ⟨rfl, List.isEmpty_iff.1 hempty⟩
  · refine .bind ((c.prepareAll_barred ds).imp fun prepared _ => ?_)
    dsimp only
    split
    · exact .bind (.throw trivial)
    · refine .bind ((Action.commit_barred _).imp ?_)
      rintro result rfl
      exact .throw trivial

end Collection

namespace Operation

/-- An operation that asks for nothing: it inserts no documents, or its query matches none whatever is
stored, or no document is wanted. -/
def Vain (c : Collection) : Operation → Prop
  | insertOne _ | dropAll => False
  | insertMany ds => ds = []
  | updateOne q _ | updateMany q _ | updateWith q _ _ | deleteOne q | deleteMany q | deleteWith q _ =>
    (c.plan q.compile).strategy = .nothing
  | find q ops => Cursor.Vain ⟨c, c.plan q.compile, ops⟩

theorem program_barred (op : Operation) (c : Collection) (hfuel : 0 < fuel) :
    (op.program c fuel).Under .barred fun reply => reply = .documents [] ∧ op.Vain c := by
  cases op with
  | insertOne d => exact .bind ((c.insertOne_barred d).imp fun _ h => h.elim)
  | insertMany ds =>
    refine .bind ((c.insertMany_barred ds).imp ?_)
    rintro stored ⟨rfl, hds⟩
    exact .pure ⟨rfl, hds⟩
  | updateOne q u =>
    refine .bind (.bind ((c.change_barred (.update u) q .once hfuel).imp ?_))
    rintro ds ⟨rfl, hvain⟩
    exact .pure (.pure ⟨rfl, hvain⟩)
  | deleteOne q =>
    refine .bind (.bind ((c.change_barred .delete q .once hfuel).imp ?_))
    rintro ds ⟨rfl, hvain⟩
    exact .pure (.pure ⟨rfl, hvain⟩)
  | updateMany q u =>
    refine .bind ((c.change_barred (.update u) q {} hfuel).imp ?_)
    rintro ds ⟨rfl, hvain⟩
    exact .pure ⟨rfl, hvain⟩
  | updateWith q u o =>
    refine .bind ((c.change_barred (.update u) q o hfuel).imp ?_)
    rintro ds ⟨rfl, hvain⟩
    exact .pure ⟨rfl, hvain⟩
  | deleteMany q =>
    refine .bind ((c.change_barred .delete q {} hfuel).imp ?_)
    rintro ds ⟨rfl, hvain⟩
    exact .pure ⟨rfl, hvain⟩
  | deleteWith q o =>
    refine .bind ((c.change_barred .delete q o hfuel).imp ?_)
    rintro ds ⟨rfl, hvain⟩
    exact .pure ⟨rfl, hvain⟩
  | dropAll =>
    -- the query for all documents is answered by a scan
    refine .bind (.bind ((c.change_barred .delete .all {} hfuel).imp ?_))
    rintro ds ⟨rfl, hvain⟩
    have hall : (c.plan Query.all.compile).strategy = .everything := Strategy.choose_all c.indexes
    rw [hall] at hvain
    cases hvain
  | find q ops =>
    refine .bind ((Cursor.getMany_barred ⟨c, c.plan q.compile, ops⟩ hfuel).imp ?_)
    rintro ds ⟨rfl, hvain⟩
    exact .pure ⟨rfl, hvain⟩

end Operation

end DocumentStore

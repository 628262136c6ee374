import DocumentStore.Proofs.Collection.Reading
import DocumentStore.Proofs.Program.Counting

/-!
# Attempts on a document

However the requests of a change are answered, it commits each document no more often than its retry
policy allows, and what it does between commits only reads.  The attempts are counted in a number of
fixed size, and the count never overflows (`Collection.changeCounted_eq`).
-/

namespace DocumentStore

/-! ## Programs that only read -/

namespace Scan

theorem next_commitsAtMost (s : Scan) : s.next.CommitsAtMost 0 := by
  unfold next
  split
  · refine .after (Action.CommitsAtMost.scan _ _ _) fun r => ?_
    cases r <;> exact .pure 0 _
  · exact .pure 0 _

theorem begin_commitsAtMost (base : Key) (pageSize : Nat) :
    (begin base pageSize).CommitsAtMost 0 := by
  unfold begin
  split
  · exact .throw 0 _
  · refine .after (.lift .isClosed) fun closed => ?_
    split
    · exact .throw 0 _
    · exact .pure 0 _

end Scan

theorem EntrySource.next_commitsAtMost (source : EntrySource) : source.next.CommitsAtMost 0 := by
  cases source with
  | nothing => exact .pure 0 _
  | single e => exact .pure 0 _
  | scan s => exact .after s.next_commitsAtMost fun r => .pure 0 _

namespace Candidates

variable {c : Collection}

theorem next_commitsAtMost (fuel : Nat) (candidates : Candidates) :
    (candidates.next fuel).CommitsAtMost 0 := by
  induction fuel generalizing candidates with
  | zero => exact .unfinished 0
  | succ fuel ih =>
    refine .after candidates.source.next_commitsAtMost fun r => ?_
    obtain ⟨item, source⟩ := r
    rcases item with _ | item
    · exact .pure 0 _
    · dsimp only
      split
      · exact .pure 0 _
      · split
        · exact .pure 0 _
        · exact ih _

theorem collect_commitsAtMost (fuel : Nat) (limit : Option Nat) (candidates : Candidates) :
    (candidates.collect fuel limit).CommitsAtMost 0 := by
  induction fuel generalizing candidates limit with
  | zero =>
    by_cases hlimit : limit = some 0
    · rw [hlimit, collect_no_more]
      exact .pure 0 _
    · rw [collect_zero hlimit]
      exact Program.CommitsAtMost.unfinished 0
  | succ fuel ih =>
    by_cases hlimit : limit = some 0
    · rw [hlimit, collect_no_more]
      exact .pure 0 _
    · rw [collect_succ hlimit]
      refine .after (.lift (candidates.next_commitsAtMost _)) fun r => ?_
      obtain ⟨item, rest⟩ := r
      rcases item with _ | _ | candidate
      · exact .pure 0 _
      · exact .throw 0 _
      · exact .after (ih _ _) fun found => .pure 0 _

theorem sourceOf_commitsAtMost (bound : Option Nat) (strategy : Strategy) :
    (sourceOf c bound strategy).CommitsAtMost 0 := by
  cases strategy with
  | nothing => exact .pure 0 _
  | byId id => exact .after (.get _) fun e => .pure 0 _
  | byIndex field part => exact .after (Scan.begin_commitsAtMost _ _) fun s => .pure 0 _
  | everything => exact .after (Scan.begin_commitsAtMost _ _) fun s => .pure 0 _

theorem ofPlan_commitsAtMost (plan : Plan) (bound : Option Nat) :
    (ofPlan c plan bound).CommitsAtMost 0 := by
  unfold ofPlan
  split
  · exact .pure 0 _
  · exact .after (sourceOf_commitsAtMost _ _) fun source => .pure 0 _

end Candidates

theorem Collection.refetch_commitsAtMost (c : Collection) (id : String) (q : CompiledQuery) :
    (c.refetch id q).CommitsAtMost 0 := by
  refine .after (.get _) fun e => ?_
  cases e with
  | none => exact .pure 0 _
  | some e => exact .after (.ofExcept 0 _) fun candidate => .pure 0 _

/-! ## Attempts on one document -/

namespace RetryPolicy

def attempts : RetryPolicy → Nat
  | single => 1
  | untilSuccess maxAttempts => maxAttempts.toNat

theorem attempts_eq {p : RetryPolicy} (h : p.check = .ok ()) : p.attempts = p.retries + 1 := by
  cases p with
  | single => rfl
  | untilSuccess maxAttempts =>
    have hne : maxAttempts.toNat ≠ 0 := by
      intro hzero
      obtain rfl : maxAttempts = 0 := UInt32.toNat_inj.1 hzero
      cases h
    show maxAttempts.toNat = maxAttempts.toNat - 1 + 1
    omega

end RetryPolicy

namespace Collection

variable {c : Collection} {change : Change} {q : CompiledQuery} {id : String}

theorem attempt_commitsAtMost (s : Candidate) (id : String) :
    (c.attempt change s id).CommitsAtMost 1 := by
  refine .after (.ofExcept 0 _) fun r => ?_
  exact Action.CommitsAtMost.bind (.commit _) fun result => .pure 0 _

theorem changeOne_commitsAtMost (policy : RetryPolicy) (id : String) (retries : Nat)
    (s : Candidate) : (c.changeOne change q policy id retries s).CommitsAtMost (retries + 1) := by
  induction retries generalizing s with
  | zero =>
    unfold changeOne
    refine Action.CommitsAtMost.bind (n := 0) (attempt_commitsAtMost s id) fun o => ?_
    cases o with
    | some result => exact .pure 0 _
    | none =>
      cases policy with
      | single => exact .pure 0 _
      | untilSuccess maxAttempts => exact .throw 0 _
  | succ retries ih =>
    unfold changeOne
    rw [Nat.add_comm (retries + 1) 1]
    refine Action.CommitsAtMost.bind (attempt_commitsAtMost s id) fun o => ?_
    cases o with
    | some result => exact .pure _ _
    | none =>
      refine .after (c.refetch_commitsAtMost id q) fun found => ?_
      cases found with
      | some s' => exact ih s'
      | none => exact .pure _ _

/-- A policy bounds the commits for one document, whatever is committed by others. -/
theorem changeCandidate_commitsAtMost {policy : RetryPolicy} (hpolicy : policy.check = .ok ())
    (s : Candidate) : (c.changeCandidate change q policy s).CommitsAtMost policy.attempts := by
  rw [RetryPolicy.attempts_eq hpolicy]
  exact .after (.ofExcept 0 _) fun id => changeOne_commitsAtMost policy id policy.retries s

theorem toNat_add_one {attempts : UInt32} (h : attempts ≠ 0xffffffff) :
    (attempts + 1).toNat = attempts.toNat + 1 := by
  have hlt := attempts.toNat_lt
  have hne : attempts.toNat ≠ 0xffffffff := fun he => h (UInt32.toNat_inj.1 he)
  rw [UInt32.toNat_add]
  show (attempts.toNat + 1) % 2 ^ 32 = attempts.toNat + 1
  omega

/-- The attempts on one document as they are counted, in thirty-two bits.  What happens if the count
has no room for another attempt is left open. -/
def changeCounted (c : Collection) (change : Change) (q : CompiledQuery) (policy : RetryPolicy)
    (id : String) (overflow : Action (Option Document)) (attempts : UInt32) (s : Candidate) :
    Action (Option Document) :=
  if attempts = 0xffffffff then overflow
  else do
    match ← c.attempt change s id with
    | some result => return some result
    | none =>
      if policy.allowsRetry (attempts + 1).toNat then
        match ← c.refetch id q with
        | some s => c.changeCounted change q policy id overflow (attempts + 1) s
        | none => return none
      else
        match policy with
        | .single => return none
        | .untilSuccess maxAttempts =>
          throw (.retriesExhausted change.kind id maxAttempts.toNat)
termination_by UInt32.size - attempts.toNat
decreasing_by
  have hlt := attempts.toNat_lt
  have hnext := toNat_add_one ‹¬attempts = 0xffffffff›
  show UInt32.size - (attempts + 1).toNat < UInt32.size - attempts.toNat
  have hsize : UInt32.size = 2 ^ 32 := rfl
  omega

theorem changeCounted_eq_of_retries (policy : RetryPolicy)
    (id : String) (overflow : Action (Option Document)) {attempts : UInt32} (s : Candidate)
    (retries : Nat) (hroom : attempts.toNat + retries + 1 < UInt32.size)
    (hallows : ∀ i ≤ retries,
      policy.allowsRetry (attempts.toNat + i + 1) = decide (i < retries)) :
    c.changeCounted change q policy id overflow attempts s =
      c.changeOne change q policy id retries s := by
  -- on the retries that are left, with the count of attempts as large as those that were made
  have hne : attempts ≠ 0xffffffff := by
    rintro rfl
    have hsize : UInt32.size = 0xffffffff + 1 := rfl
    have hmax : (0xffffffff : UInt32).toNat = 0xffffffff := rfl
    omega
  have hnext := toNat_add_one hne
  induction retries generalizing attempts s with
  | zero =>
    unfold changeCounted changeOne
    rw [if_neg hne, hnext, hallows 0 (Nat.le_refl 0)]
    rfl
  | succ retries ih =>
    unfold changeCounted changeOne
    rw [if_neg hne, hnext, hallows 0 (Nat.zero_le _)]
    have hroom' : (attempts + 1).toNat + retries + 1 < UInt32.size := by omega
    have hne' : attempts + 1 ≠ 0xffffffff := by
      intro he
      have hsize : UInt32.size = 0xffffffff + 1 := rfl
      have hmax : (attempts + 1).toNat = 0xffffffff := congrArg UInt32.toNat he
      omega
    have hrest : ∀ s, c.changeCounted change q policy id overflow (attempts + 1) s =
        c.changeOne change q policy id retries s := fun s => by
      refine ih s hroom' (fun i hi => ?_) hne' (toNat_add_one hne')
      rw [hnext, show attempts.toNat + 1 + i + 1 = attempts.toNat + (i + 1) + 1 by omega,
        hallows (i + 1) (by omega)]
      simp
    simp only [hrest]
    rfl

/-- The count of attempts never overflows. -/
theorem changeCounted_eq {policy : RetryPolicy} (hpolicy : policy.check = .ok ()) (id : String)
    (overflow : Action (Option Document)) (s : Candidate) :
    c.changeCounted change q policy id overflow 0 s =
      c.changeOne change q policy id policy.retries s := by
  have hzero : (0 : UInt32).toNat = 0 := rfl
  cases policy with
  | single =>
    refine changeCounted_eq_of_retries .single id overflow s 0 (by decide) fun i hi => ?_
    obtain rfl : i = 0 := Nat.le_zero.1 hi
    rfl
  | untilSuccess maxAttempts =>
    have hattempts : maxAttempts.toNat = (RetryPolicy.untilSuccess maxAttempts).retries + 1 :=
      RetryPolicy.attempts_eq hpolicy
    have hlt := maxAttempts.toNat_lt
    have hsize : UInt32.size = 2 ^ 32 := rfl
    refine changeCounted_eq_of_retries _ id overflow s _ (by omega) fun i hi => ?_
    show decide _ = decide _
    refine decide_eq_decide.2 ?_
    omega

end Collection

end DocumentStore

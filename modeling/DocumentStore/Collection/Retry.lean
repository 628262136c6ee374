import DocumentStore.Error
import DocumentStore.Text.Quoted

/-!
How often a write is tried when it conflicts with another one, and how many documents it is for.
-/

namespace DocumentStore

inductive RetryPolicy where
  | single
  /-- Attempts up to the first that succeeds, at most so many. -/
  | untilSuccess (maxAttempts : UInt32)
deriving DecidableEq, Inhabited

namespace RetryPolicy

def forUpdates : RetryPolicy := untilSuccess 16

def forDeletes : RetryPolicy := single

def allowsRetry (p : RetryPolicy) (attempts : Nat) : Bool :=
  match p with
  | single => false
  | untilSuccess maxAttempts => attempts < maxAttempts.toNat

def retries : RetryPolicy → Nat
  | single => 0
  | untilSuccess maxAttempts => maxAttempts.toNat - 1

def check (p : RetryPolicy) : Except Error Unit :=
  if p = untilSuccess 0 then .error .noAttempts else .ok ()

def checkOptional : Option RetryPolicy → Except Error Unit
  | some p => p.check
  | none => .ok ()

def text : RetryPolicy → String
  | single => "SingleAttempt"
  | untilSuccess maxAttempts =>
    Text.record "RetryUntilSuccess" [("max_attempts", toString maxAttempts.toNat)]

end RetryPolicy

structure WriteOptions where
  /-- Whether the write stops at the first document. -/
  justOnce : Bool := false
  /-- A policy in place of that of the collection. -/
  retry : Option RetryPolicy := none
deriving Inhabited

namespace WriteOptions

def once : WriteOptions := { justOnce := true }

def withRetry (o : WriteOptions) (p : RetryPolicy) : WriteOptions := { o with retry := some p }

def text (o : WriteOptions) : String :=
  Text.record "WriteOptions" [
    ("just_once", toString o.justOnce),
    ("retry_policy", Text.optional (o.retry.map RetryPolicy.text))]

end WriteOptions

end DocumentStore

import DocumentStore.Collection.Basic
import DocumentStore.Database.Registry
import DocumentStore.Database.Settings
import DocumentStore.Store.Memory

/-!
Programs: what an operation of a database does, one request at a time.

A request is one atomic access to what the operations of a database share: its store, its source of
identities and its registry. A program is finished or waits for the answer to a request, so programs
can be run by any handler, alone or interleaved with others. Operations that read on and on until
the store has nothing more take a bound on the entries they look at; a program beyond its bound is
unfinished and has no result.
-/

namespace DocumentStore

inductive Request where
  | get (key : Key)
  | scan (base : Key) (after : Option Key) (limit : Nat)
  | commit (batch : Batch)
  | isClosed
  | freshId
  | register (name : String) (options : Option CollectionOptions)
  | unregister (name : String)

def Request.Answer : Request → Type
  | get _ => Except Error (Option Entry)
  | scan .. => Except Error (List Entry)
  | commit _ => Except Error CommitResult
  | isClosed => Bool
  | freshId => String
  | register .. => Except Error Collection
  | unregister _ => Unit

inductive Program (α : Type) where
  | done (result : α)
  | ask (request : Request) (next : request.Answer → Program α)
  | unfinished

namespace Program

variable {α β S : Type}

def bind : Program α → (α → Program β) → Program β
  | done a, f => f a
  | ask r next, f => ask r fun answer => (next answer).bind f
  | unfinished, _ => unfinished

instance : Monad Program where
  pure := done
  bind := bind

instance : Inhabited (Program α) := ⟨unfinished⟩

/-- Runs a program with a handler of requests; an unfinished program has no result. -/
def run (answer : (r : Request) → S → r.Answer × S) : Program α → S → Option α × S
  | done a, s => (some a, s)
  | ask r next, s => (next (answer r s).1).run answer (answer r s).2
  | unfinished, s => (none, s)

theorem run_bind (answer : (r : Request) → S → r.Answer × S) (p : Program α) (f : α → Program β)
    (s : S) :
    (p >>= f).run answer s =
      match p.run answer s with
      | (some a, s) => (f a).run answer s
      | (none, s) => (none, s) := by
  show (p.bind f).run answer s = _
  induction p generalizing s with
  | done a => rfl
  | ask r next ih => exact ih _ _
  | unfinished => rfl

end Program

abbrev Action (α : Type) := ExceptT Error Program α

namespace Action

/-- The answer to a request, an error in it becoming the failure of the action. -/
def fallible {α : Type} (p : Program (Except Error α)) : Action α := p

def get (key : Key) : Action (Option Entry) := fallible (.ask (.get key) .done)

def scan (base : Key) (after : Option Key) (limit : Nat) : Action (List Entry) :=
  fallible (.ask (.scan base after limit) .done)

def commit (batch : Batch) : Action CommitResult := fallible (.ask (.commit batch) .done)

def isClosed : Program Bool := .ask .isClosed .done

def freshId : Program String := .ask .freshId .done

def register (name : String) (options : Option CollectionOptions) : Action Collection :=
  fallible (.ask (.register name options) .done)

def unregister (name : String) : Program Unit := .ask (.unregister name) .done

def ofExcept {α : Type} (result : Except Error α) : Action α := fallible (.done result)

end Action

end DocumentStore

import DocumentStore.Program

/-!
# Programs under a regime

A regime says which answers requests may have.  `Program.Under` says of a program what its result is as
long as it gets no other answers, and `Action.Under` the same of an action, which may also end with an error
that the regime allows.  Any handler that keeps to the regime then leads to such a result
(`Program.Under.run`).

Under `Regime.sparing` no answer is a given error and no action ends with it, so whenever an action does
fail with the error, some answer of the store has been the error already.
-/

namespace DocumentStore

variable {α β : Type}

structure Regime where
  permits : (r : Request) → r.Answer → Prop
  raises : Error → Prop
  /-- Whether a program may be left unfinished. -/
  endless : Prop

def Regime.Allows (R : Regime) (post : α → Prop) : Except Error α → Prop
  | .ok a => post a
  | .error e => R.raises e

variable {R : Regime}

theorem Regime.Allows.imp {post post' : α → Prop} (himp : ∀ a, post a → post' a)
    {r : Except Error α} (h : R.Allows post r) : R.Allows post' r := by
  cases r with
  | ok a => exact himp a h
  | error e => exact h

/-! ## Programs -/

namespace Program

/-- With all permitted answers the result satisfies `post`. -/
def Under (R : Regime) (post : α → Prop) : Program α → Prop
  | done a => post a
  | ask r next => ∀ a, R.permits r a → (next a).Under R post
  | unfinished => R.endless

namespace Under

variable {post post' : α → Prop} {p : Program α}

theorem imp (himp : ∀ a, post a → post' a) (h : p.Under R post) : p.Under R post' := by
  induction p with
  | done a => exact himp a h
  | ask r next ih => exact fun a ha => ih a (h a ha)
  | unfinished => exact h

theorem pure {a : α} (h : post a) : (Pure.pure a : Program α).Under R post := h

theorem bind {post : β → Prop} {f : α → Program β} (h : p.Under R fun a => (f a).Under R post) :
    (p >>= f).Under R post := by
  show (p.bind f).Under R post
  induction p with
  | done a => exact h
  | ask r next ih => exact fun a ha => ih a (h a ha)
  | unfinished => exact h

/-- Nothing is asked of the results of a program. -/
theorem free (hendless : R.endless) (p : Program α) : p.Under R fun _ => True := by
  induction p with
  | done a => trivial
  | ask r next ih => exact fun a _ => ih a
  | unfinished => exact hendless

/-- A handler that keeps to the regime leads to a result with `post`. -/
theorem run {S : Type} {answer : (r : Request) → S → r.Answer × S}
    (hanswer : ∀ (r : Request) (s : S), R.permits r (answer r s).1) (h : p.Under R post)
    {s s' : S} {a : α} (hrun : p.run answer s = (some a, s')) : post a := by
  induction p generalizing s with
  | done b =>
    cases hrun
    exact h
  | ask r next ih => exact ih _ (h _ (hanswer r s)) hrun
  | unfinished => cases hrun

end Under

end Program

/-! ## Actions -/

namespace Action

/-- With all permitted answers the result satisfies `post`, or is an error that may come. -/
def Under (R : Regime) (post : α → Prop) (p : Action α) : Prop :=
  Program.Under R (R.Allows post) p

namespace Under

variable {post post' : α → Prop} {p : Action α}

theorem imp (himp : ∀ a, post a → post' a) (h : p.Under R post) : p.Under R post' :=
  Program.Under.imp (fun _ hr => hr.imp himp) h

theorem ofExcept {r : Except Error α} (h : R.Allows post r) : (Action.ofExcept r).Under R post := h

theorem pure {a : α} (h : post a) : (Pure.pure a : Action α).Under R post := h

theorem throw {e : Error} (h : R.raises e) : (MonadExcept.throw e : Action α).Under R post := h

theorem bind {post : β → Prop} {f : α → Action β} (h : p.Under R fun a => (f a).Under R post) :
    (p >>= f).Under R post := by
  refine Program.Under.bind (Program.Under.imp (fun r hr => ?_) h)
  cases r with
  | ok a => exact hr
  | error e => exact throw hr

/-- What follows an action may satisfy `post` whatever the result. -/
theorem bindAny {post : β → Prop} {f : α → Action β} (h : p.Under R fun _ => True)
    (hf : ∀ a, (f a).Under R post) : (p >>= f).Under R post :=
  bind (h.imp fun a _ => hf a)

theorem lift {p : Program α} (h : p.Under R post) : (liftM p : Action α).Under R post :=
  Program.Under.bind (Program.Under.imp (fun _ ha => pure ha) h)

end Under

end Action

/-! ## Regimes that spare an error -/

section Sparing

variable {e : Error}

def Request.Spares (e : Error) : (r : Request) → r.Answer → Prop
  | get _, a => (a : Except Error (Option Entry)) ≠ .error e
  | scan .., a => (a : Except Error (List Entry)) ≠ .error e
  | commit _, a => (a : Except Error CommitResult) ≠ .error e
  | register .., a => (a : Except Error Collection) ≠ .error e
  | isClosed, _ | freshId, _ | unregister _, _ => True

/-- Nothing is said of programs that stay unfinished. -/
def Regime.sparing (e : Error) : Regime := ⟨Request.Spares e, (· ≠ e), True⟩

theorem Regime.Allows.sparing {r : Except Error α} (h : r ≠ .error e) :
    (Regime.sparing e).Allows (fun _ => True) r := by
  cases r with
  | ok a => trivial
  | error e' => exact fun he => h (congrArg _ he)

namespace Action

/-- A request that fails with its answer. -/
theorem get_spares (key : Key) : (Action.get key).Under (.sparing e) fun _ => True :=
  fun _ h => Regime.Allows.sparing h

theorem scan_spares (base : Key) (after : Option Key) (limit : Nat) :
    (Action.scan base after limit).Under (.sparing e) fun _ => True :=
  fun _ h => Regime.Allows.sparing h

theorem commit_spares (b : Batch) : (Action.commit b).Under (.sparing e) fun _ => True :=
  fun _ h => Regime.Allows.sparing h

/-- A handler that never answers with the error does not make the action fail with it. -/
theorem Under.run_ne {post : α → Prop} {p : Action α} {S : Type}
    {answer : (r : Request) → S → r.Answer × S}
    (hanswer : ∀ (r : Request) (s : S), r.Spares e (answer r s).1)
    (h : p.Under (.sparing e) post) (s : S) :
    (Program.run answer p s).1 ≠ some (.error e) :=
  fun hrun => Program.Under.run (R := .sparing e) hanswer h (Prod.ext hrun rfl) rfl

end Action

end Sparing

end DocumentStore

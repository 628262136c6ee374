import DocumentStore.Program

/-!
# Programs that share a state with others

Between two requests of a program the others may change the state.  `Program.Upholds` says of a
program that, whatever the others do within their bounds, it asks only what it may ask and its result
satisfies a condition.  There is one rule for each way in which programs are put together.
-/

namespace DocumentStore

/-- A state that programs share: how it answers requests, how it may change while a program waits,
and what a program may ask of it. -/
structure Sharing (S : Type) where
  answer : (r : Request) → S → r.Answer × S
  drifts : S → S → Prop
  admits : Request → S → Prop

namespace Program

variable {α β S : Type}

theorem pure_bind' (a : α) (f : α → Program β) : (pure a : Program α) >>= f = f a := rfl

theorem bind_assoc' {γ : Type} (p : Program α) (f : α → Program β) (g : β → Program γ) :
    (p >>= f) >>= g = p >>= fun a => f a >>= g := by
  show (p.bind f).bind g = p.bind fun a => (f a).bind g
  induction p with
  | done a => rfl
  | ask r next ih => exact congrArg (ask r) (funext fun answer => ih answer)
  | unfinished => rfl

theorem map_id' (p : Program α) : id <$> p = p := by
  show p.bind (fun a => done (id a)) = p
  induction p with
  | done a => rfl
  | ask r next ih => exact congrArg (ask r) (funext fun answer => ih answer)
  | unfinished => rfl

instance : LawfulMonad Program :=
  LawfulMonad.mk' Program map_id' pure_bind' bind_assoc'

/-- Whatever happens between its requests, the program asks only what it may ask, and a result
satisfies `post` in the state that it is given in. -/
def Upholds (env : Sharing S) (post : α → S → Prop) : Program α → S → Prop
  | done a, s => post a s
  | ask r next, s => ∀ s', env.drifts s s' →
      env.admits r s' ∧ (next (env.answer r s').1).Upholds env post (env.answer r s').2
  | unfinished, _ => True

namespace Upholds

variable {env : Sharing S} {post post' : α → S → Prop} {s s' : S}

theorem imp (himp : ∀ a s, post a s → post' a s) {p : Program α} (h : p.Upholds env post s) :
    p.Upholds env post' s := by
  induction p generalizing s with
  | done a => exact himp a s h
  | ask r next ih =>
    intro s' hs'
    obtain ⟨hadmits, hnext⟩ := h s' hs'
    exact ⟨hadmits, ih _ hnext⟩
  | unfinished => trivial

theorem bind {p : Program α} {f : α → Program β} {post : β → S → Prop}
    (h : p.Upholds env (fun a s => (f a).Upholds env post s) s) :
    (p >>= f).Upholds env post s := by
  show (p.bind f).Upholds env post s
  induction p generalizing s with
  | done a => exact h
  | ask r next ih =>
    intro s' hs'
    obtain ⟨hadmits, hnext⟩ := h s' hs'
    exact ⟨hadmits, ih _ hnext⟩
  | unfinished => trivial

/-- A program that may run from a state may run from what the state drifts to. -/
theorem drift (htrans : ∀ {a b c : S}, env.drifts a b → env.drifts b c → env.drifts a c)
    (hpost : ∀ a {s s' : S}, env.drifts s s' → post a s → post a s') {p : Program α}
    (h : p.Upholds env post s) (hs : env.drifts s s') : p.Upholds env post s' := by
  cases p with
  | done a => exact hpost a hs h
  | ask r next => exact fun s'' hs'' => h s'' (htrans hs hs'')
  | unfinished => trivial

end Upholds

end Program

namespace Action

variable {α β S : Type} {env : Sharing S} {s : S}

def Upholds (env : Sharing S) (post : α → S → Prop) (p : Action α) (s : S) : Prop :=
  Program.Upholds env (fun r s => ∀ a, r = .ok a → post a s) p s

theorem Upholds.imp {post post' : α → S → Prop} (himp : ∀ a s, post a s → post' a s) {p : Action α}
    (h : Action.Upholds env post p s) : Action.Upholds env post' p s :=
  Program.Upholds.imp (fun _ _ hpost a ha => himp a _ (hpost a ha)) h

theorem Upholds.pure {post : α → S → Prop} {a : α} (h : post a s) :
    Action.Upholds env post (Pure.pure a) s := by
  intro b hb
  cases hb
  exact h

theorem Upholds.throw {post : α → S → Prop} (e : Error) :
    Action.Upholds env post (MonadExcept.throw e) s := by
  intro b hb
  cases hb

theorem Upholds.bind {post : β → S → Prop} {p : Action α} {f : α → Action β}
    (h : Action.Upholds env (fun a s => Action.Upholds env post (f a) s) p s) :
    Action.Upholds env post (p >>= f) s := by
  refine Program.Upholds.bind (Program.Upholds.imp (fun r s hr => ?_) h)
  cases r with
  | ok a => exact hr a rfl
  | error e => exact Upholds.throw e

end Action

end DocumentStore

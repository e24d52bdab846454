/-!
Computations that put out items one by one and may stop with an error.

What was put out before the error stays out: a caller that goes on has already coded it.
-/

namespace TileCoder

/-- The items put out, and the value or the error at the end. -/
structure Emit (ι ε α : Type) where
  items : List ι
  result : Except ε α

namespace Emit

variable {ι ε α β : Type}

/-- Goes on with the result unless there is an error. -/
protected def bind (first : Emit ι ε α) (next : α → Emit ι ε β) : Emit ι ε β :=
  match first.result with
  | .error e => ⟨first.items, .error e⟩
  | .ok a => ⟨first.items ++ (next a).items, (next a).result⟩

instance : Monad (Emit ι ε) where
  pure a := ⟨[], .ok a⟩
  bind := Emit.bind

instance : MonadExceptOf ε (Emit ι ε) where
  throw e := ⟨[], .error e⟩
  tryCatch first handle :=
    match first.result with
    | .error e => ⟨first.items ++ (handle e).items, (handle e).result⟩
    | .ok _ => first

instance : MonadLift (Except ε) (Emit ι ε) where
  monadLift result := ⟨[], result⟩

def all (items : List ι) : Emit ι ε Unit := ⟨items, .ok ()⟩

def one (item : ι) : Emit ι ε Unit := all [item]

@[simp] theorem items_pure (a : α) : (pure a : Emit ι ε α).items = [] := rfl

@[simp] theorem result_pure (a : α) : (pure a : Emit ι ε α).result = .ok a := rfl

@[simp] theorem items_throw (e : ε) : (throw e : Emit ι ε α).items = [] := rfl

@[simp] theorem result_throw (e : ε) : (throw e : Emit ι ε α).result = .error e := rfl

@[simp] theorem items_all (items : List ι) : (all items : Emit ι ε Unit).items = items := rfl

@[simp] theorem result_all (items : List ι) : (all items : Emit ι ε Unit).result = .ok () := rfl

theorem bind_of_ok {first : Emit ι ε α} {a : α} (ok : first.result = .ok a)
    (next : α → Emit ι ε β) :
    first >>= next = ⟨first.items ++ (next a).items, (next a).result⟩ := by
  show Emit.bind first next = _
  rw [Emit.bind, ok]

theorem bind_of_error {first : Emit ι ε α} {e : ε} (error : first.result = .error e)
    (next : α → Emit ι ε β) : first >>= next = ⟨first.items, .error e⟩ := by
  show Emit.bind first next = _
  rw [Emit.bind, error]

end Emit

end TileCoder

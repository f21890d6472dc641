import TemplateExpr.Token.Mistake

/-!
Walks: computations that move a state as they go and end with a result or a mistake, in some state
either way. A walk that moves its state to where it must not be breaks off and has no end. What a
walk does is said against a computation without a state, which it follows.
-/
namespace TemplateExpr

abbrev Walk (σ : Type) := ExceptT Mistake (StateT σ Option)

namespace Walk

variable {σ α β γ δ ε : Type} {s t : σ}

@[simp] theorem pure_apply (a : α) (s : σ) : (pure a : Walk σ α) s = some (.ok a, s) := rfl

@[simp] theorem throw_apply (m : Mistake) (s : σ) :
    (throw m : Walk σ α) s = some (.error m, s) := rfl

@[simp] theorem get_apply (s : σ) : (get : Walk σ σ) s = some (.ok s, s) := rfl

theorem bind_of_ok {x : Walk σ α} {a : α} (h : x s = some (.ok a, t)) (f : α → Walk σ β) :
    (x >>= f) s = f a t := by
  change (x s).bind _ = _
  rw [h]
  rfl

theorem bind_of_error {x : Walk σ α} {m : Mistake} (h : x s = some (.error m, t))
    (f : α → Walk σ β) : (x >>= f) s = some (.error m, t) := by
  change (x s).bind _ = _
  rw [h]
  rfl

/-- The walk ends, with a result where the computation has one and with a mistake where it fails. -/
inductive Follows (x : Walk σ α) (s : σ) (P : α → σ → β → Prop) (E : Mistake → σ → ε → Prop) :
    Except ε β → Prop
  | ok {a t b} : x s = some (.ok a, t) → P a t b → Follows x s P E (.ok b)
  | error {m t e} : x s = some (.error m, t) → E m t e → Follows x s P E (.error e)

namespace Follows

variable {x : Walk σ α} {P P' : α → σ → β → Prop} {E E' : Mistake → σ → ε → Prop}
  {o : Except ε β}

theorem mono (h : Follows x s P E o) (hP : ∀ a t b, P a t b → P' a t b)
    (hE : ∀ m t e, E m t e → E' m t e) : Follows x s P' E' o := by
  cases h with
  | ok hx hp => exact .ok hx (hP _ _ _ hp)
  | error hx he => exact .error hx (hE _ _ _ he)

theorem of_eq {y : Walk σ α} (h : Follows y t P E o) (hx : x s = y t) : Follows x s P E o := by
  cases h with
  | ok hy hp => exact .ok (hx.trans hy) hp
  | error hy he => exact .error (hx.trans hy) he

theorem bind {f : α → Walk σ γ} {g : β → Except ε δ} {Q : γ → σ → δ → Prop}
    (h : Follows x s P E o) (hf : ∀ a t b, P a t b → Follows (f a) t Q E (g b)) :
    Follows (x >>= f) s Q E (o >>= g) := by
  cases h with
  | @ok a t b hx hp =>
      change Follows (x >>= f) s Q E (g b)
      generalize g b = r, hf a t b hp = hg at *
      cases hg with
      | ok hy hq => exact .ok ((bind_of_ok hx f).trans hy) hq
      | error hy he => exact .error ((bind_of_ok hx f).trans hy) he
  | error hx he => exact .error (bind_of_error hx f) he

end Follows

end Walk

end TemplateExpr

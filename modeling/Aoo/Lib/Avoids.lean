/-!
# Computations that do not fail in one way

Some errors are answers and one of them is a defect, such as a read outside of a buffer. `Avoids bad P r`
says that `r` does not fail with `bad`, and that what it returns has the property `P`. The rules
follow the shape of a program: what is returned, what is thrown, and what is done with a result.
-/

namespace Aoo.Lib

variable {ε α β : Type} {bad : ε} {P Q : α → Prop} {R : β → Prop}

/-- `r` does not fail with `bad`, and its result has `P`. -/
structure Avoids (bad : ε) (P : α → Prop) (r : Except ε α) : Prop where
  ne : r ≠ .error bad
  of_ok : ∀ a, r = .ok a → P a

namespace Avoids

theorem ok {a : α} (h : P a) : Avoids bad P (.ok a) where
  ne hc := by cases hc
  of_ok b hb := Except.ok.inj hb ▸ h

theorem error {e : ε} (h : e ≠ bad) : Avoids bad P (.error e) where
  ne hc := h (Except.error.inj hc)
  of_ok b hb := by cases hb

theorem mono {r : Except ε α} (h : Avoids bad P r) (hPQ : ∀ a, P a → Q a) : Avoids bad Q r :=
  ⟨h.ne, fun a ha => hPQ a (h.of_ok a ha)⟩

/-- What follows can count on the property of the result. -/
theorem bind {r : Except ε α} {f : α → Except ε β} (h : Avoids bad P r)
    (hf : ∀ a, P a → Avoids bad R (f a)) : Avoids bad R (r >>= f) := by
  cases r with
  | ok a => exact hf a (h.of_ok a rfl)
  | error e => exact .error fun he => h.ne (congrArg Except.error he)

/-- The result is turned into another one. -/
theorem map {r : Except ε α} {f : α → β} (h : Avoids bad P r) (hf : ∀ a, P a → R (f a)) :
    Avoids bad R (r >>= fun a => pure (f a)) :=
  h.bind fun a ha => .ok (hf a ha)

theorem ite {c : Prop} [Decidable c] {r s : Except ε α} (hr : c → Avoids bad P r)
    (hs : ¬ c → Avoids bad P s) : Avoids bad P (if c then r else s) := by
  split
  next hc => exact hr hc
  next hc => exact hs hc

end Avoids

end Aoo.Lib

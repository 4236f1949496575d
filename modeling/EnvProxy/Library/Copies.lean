-- SUMMARY: Copies between places of a function, one after the other, and what they leave.
import Mathlib.Logic.Function.Basic
import Mathlib.Data.List.Basic

/-!
# Copies

A list of sources and destinations, carried out in order on a function from places to
contents. While no source is a destination the order does not matter: a destination has
the contents its source has had all along.
-/

namespace EnvProxy.Copies

variable {α β : Type}

/-- No source is a destination. -/
def Apart (copies : List (α × α)) : Prop := ∀ p ∈ copies, ∀ q ∈ copies, p.1 ≠ q.2

/-- A destination has one source. -/
def Determined (copies : List (α × α)) : Prop := ∀ p ∈ copies, ∀ q ∈ copies, p.2 = q.2 → p.1 = q.1

theorem Apart.subset {copies copies' : List (α × α)} (h : Apart copies) (hsub : copies' ⊆ copies) :
    Apart copies' := fun q hq r hr => h q (hsub hq) r (hsub hr)

theorem Apart.tail {p : α × α} {copies : List (α × α)} (h : Apart (p :: copies)) : Apart copies :=
  h.subset (List.subset_cons_self p copies)

theorem Determined.tail {p : α × α} {copies : List (α × α)} (h : Determined (p :: copies)) :
    Determined copies := fun q hq r hr => h q (.tail _ hq) r (.tail _ hr)

variable [DecidableEq α]

def copied : List (α × α) → (α → β) → α → β
  | [], f => f
  | (src, dst) :: copies, f => copied copies (Function.update f dst (f src))

theorem copied_append (copies copies' : List (α × α)) (f : α → β) :
    copied (copies ++ copies') f = copied copies' (copied copies f) := by
  induction copies generalizing f with
  | nil => rfl
  | cons p copies ih => exact ih _

/-- What is no destination stays as it is. -/
theorem copied_of_not_mem {copies : List (α × α)} {x : α} (f : α → β) (h : ∀ p ∈ copies, p.2 ≠ x) :
    copied copies f x = f x := by
  induction copies generalizing f with
  | nil => rfl
  | cons p copies ih =>
    have hrest : ∀ q ∈ copies, q.2 ≠ x := fun q hq => h q (.tail _ hq)
    have hne : x ≠ p.2 := Ne.symm (h p (.head _))
    exact (ih _ hrest).trans (Function.update_of_ne hne ..)

theorem copied_of_mem {copies : List (α × α)} (hapart : Apart copies)
    (hdetermined : Determined copies) {p : α × α} (f : α → β) (hp : p ∈ copies) :
    copied copies f p.2 = f p.1 := by
  induction copies generalizing f p with
  | nil => cases hp
  | cons q copies ih =>
    -- A later copy reads what was there before the first one.
    have hlater {r : α × α} (hr : r ∈ copies) : copied (q :: copies) f r.2 = f r.1 := by
      have hkept : Function.update f q.2 (f q.1) r.1 = f r.1 :=
        Function.update_of_ne (hapart r (.tail _ hr) q (.head _)) ..
      exact (ih hapart.tail hdetermined.tail _ hr).trans hkept
    by_cases hagain : ∃ r ∈ copies, r.2 = p.2
    · obtain ⟨r, hr, hsame⟩ := hagain
      have hsource : r.1 = p.1 := hdetermined r (.tail _ hr) p hp hsame
      rw [← hsame, hlater hr, hsource]
    · have hlast : ∀ r ∈ copies, r.2 ≠ p.2 := fun r hr hsame => hagain ⟨r, hr, hsame⟩
      have hfirst : p = q := by
        cases hp with
        | head => rfl
        | tail _ hp => exact absurd rfl (hlast p hp)
      subst hfirst
      exact (copied_of_not_mem _ hlast).trans (Function.update_self ..)

end EnvProxy.Copies

/-! # Reaction speeds

A node runs quota tiers of three reaction speeds. The speed of a tier is also its name in refusals,
bans and metrics. -/

namespace Floodgate

/-- How fast a tier reacts. -/
inductive Speed where
  | fast
  | slow
  | outOfSpecs
deriving DecidableEq, Inhabited

namespace Speed

/-- The name of a speed. -/
def name : Speed → String
  | fast => "fast_reacting"
  | slow => "slow_reacting"
  | outOfSpecs => "out_of_specs"

/-- The speeds in the order in which their tiers are asked. -/
def all : List Speed := [fast, slow, outOfSpecs]

end Speed

/-- One value for each speed. -/
structure PerSpeed (α : Type) where
  fast : α
  slow : α
  outOfSpecs : α
deriving DecidableEq

namespace PerSpeed

variable {α : Type}

/-- The same value for each speed. -/
def constant (a : α) : PerSpeed α := ⟨a, a, a⟩

/-- The value for a speed. -/
def get (t : PerSpeed α) : Speed → α
  | .fast => t.fast
  | .slow => t.slow
  | .outOfSpecs => t.outOfSpecs

/-- The values with the one for a speed set to `a`. -/
def set (t : PerSpeed α) (a : α) : Speed → PerSpeed α
  | .fast => { t with fast := a }
  | .slow => { t with slow := a }
  | .outOfSpecs => { t with outOfSpecs := a }

/-- The speeds and their values, in the order in which their tiers are asked. -/
def toList (t : PerSpeed α) : List (Speed × α) := Speed.all.map fun s => (s, t.get s)

@[simp]
theorem get_set (t : PerSpeed α) (a : α) (s q : Speed) :
    (t.set a s).get q = if q = s then a else t.get q := by
  cases s <;> cases q <;> rfl

end PerSpeed

end Floodgate

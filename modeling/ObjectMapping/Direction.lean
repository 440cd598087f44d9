/-! # Directions of a mapping

A mapping builds a new target object or brings an existing one up to date. A registration asks for
one of the two or for both. -/

namespace ObjectMapping

/-- What a mapping method does with its target. -/
inductive Direction where
  /-- Builds a new target object. -/
  | create
  /-- Changes an existing target object in place. -/
  | update
deriving DecidableEq, Repr

/-- The word for a direction in messages. -/
def Direction.text : Direction → String
  | .create => "create"
  | .update => "update"

/-- The directions that a registration covers. -/
inductive Mode where
  | create
  | update
  | createAndUpdate
deriving DecidableEq, Repr

/-- The directions of a mode, creation first. -/
def Mode.directions : Mode → List Direction
  | .create => [.create]
  | .update => [.update]
  | .createAndUpdate => [.create, .update]

end ObjectMapping

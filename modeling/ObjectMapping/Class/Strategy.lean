/-! # Flavors of classes and ways to construct objects

The flavor of a class says what its fields can be and what its constructor does. Objects of a model
can be constructed with its validators or without. -/

namespace ObjectMapping

/-- How an object is constructed. -/
inductive Strategy where
  /-- The validators of the class run on the new object. -/
  | validating
  /-- The validators are left out. -/
  | bypassing
deriving DecidableEq, Repr

/-- The kinds of classes. -/
inductive Flavor where
  /-- Plain records. -/
  | dataclass
  /-- Validated records, which know the fields that were assigned explicitly. -/
  | model
  /-- Rows of a database table. -/
  | orm
deriving DecidableEq, Repr

/-- The name of a strategy in texts. -/
def Strategy.text : Strategy → String
  | .validating => "validating"
  | .bypassing => "bypass_validation"

/-- The name of a flavor in texts. -/
def Flavor.text : Flavor → String
  | .dataclass => "dataclass"
  | .model => "model"
  | .orm => "orm"

end ObjectMapping

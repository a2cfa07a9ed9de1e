import DualSql.Forest.Traverse
import DualSql.Grammar.Rule

/-! # Items of lists

Which node may follow the items that a list already has. -/

namespace DualSql.Singletons

/-- Whether a node repeats an item of a list. -/
def repeats (policy : Singletons) (f : Forest) (items : List NodeId) (id : NodeId) : Bool :=
  match policy with
  | unrestricted => false
  | byType => items.any fun item => f.tag item == f.tag id
  | byValue => items.any fun item => f.same item f id

end DualSql.Singletons

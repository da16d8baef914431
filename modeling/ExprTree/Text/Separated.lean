/-!
# Lists in texts

Items of a list are written one after the other with a comma and a blank between two of them.
-/

namespace ExprTree.Text

/-- The items with `", "` between them. -/
def separated : List String → String
  | [] => ""
  | [item] => item
  | item :: next :: rest => item ++ ", " ++ separated (next :: rest)

end ExprTree.Text

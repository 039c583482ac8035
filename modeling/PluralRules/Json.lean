/-!
JSON values.

Members of an object are kept in the order in which they stand. Integers are
told apart from all other numbers, which are not looked into.
-/

namespace PluralRules

/-- A JSON value. -/
inductive Json where
  | null
  | bool (b : Bool)
  | integer (x : Int)
  /-- A number that is not written as an integer. -/
  | number
  | text (s : String)
  | list (items : List Json)
  | object (members : List (String × Json))

end PluralRules

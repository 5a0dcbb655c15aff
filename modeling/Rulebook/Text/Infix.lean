/-!
Whether a text stands inside another, and taking it out.
-/
namespace Rulebook.Text

/-- Whether the first list stands in a row somewhere in the second. -/
def isInfix [BEq α] (part : List α) : List α → Bool
  | [] => part.isEmpty
  | a :: rest => part.isPrefixOf (a :: rest) || isInfix part rest

/-- A list without its first items, so many as are to be skipped, and behind them without each place
where the part stands, looked for from the front. -/
def skipInfix [BEq α] (part : List α) (skip : Nat) : List α → List α
  | [] => []
  | a :: rest =>
    match skip with
    | n + 1 => skipInfix part n rest
    | 0 =>
      if part.isPrefixOf (a :: rest) then skipInfix part (part.length - 1) rest
      else a :: skipInfix part 0 rest

/-- A list without the places where a part stands that is not empty. -/
def eraseInfix [BEq α] (part : List α) (l : List α) : List α := skipInfix part 0 l

end Rulebook.Text

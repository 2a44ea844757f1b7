/-!
# Replacing a word in a text
-/

namespace Worksheet.Text

/-- Puts `replacement` in the place of each occurrence of a word that is not empty, from the left;
occurrences that overlap an earlier one stay. -/
def replaceAll (word replacement : List Char) : List Char → List Char
  | [] => []
  | c :: rest =>
    if word.isPrefixOf (c :: rest) then
      replacement ++ replaceAll word replacement (rest.drop (word.length - 1))
    else c :: replaceAll word replacement rest
termination_by cs => cs.length
decreasing_by
  all_goals
    simp only [List.length_cons, List.length_drop]
    omega

end Worksheet.Text

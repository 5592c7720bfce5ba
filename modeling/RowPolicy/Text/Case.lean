/-!
# Lower case

Names and words of settings and numbers are compared in lower case. All of them consist of ASCII
characters, and the Kelvin sign is the only other character that has one of these for its lower
case, so that `lower` is enough.
-/

namespace RowPolicy.Text

/-- The lower case of a letter of ASCII and of the Kelvin sign. -/
def lowerChar (c : Char) : Char := if c = '\u212a' then 'k' else c.toLower

/-- The text with the letters of ASCII and the Kelvin sign in lower case. -/
def lower (s : String) : String := String.ofList (s.toList.map lowerChar)

example : lower "LOG_Level" = "log_level" := by decide

end RowPolicy.Text

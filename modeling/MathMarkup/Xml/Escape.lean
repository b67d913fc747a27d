import MathMarkup.Text.CodePoint

/-!
# Escaping

The five characters with a meaning in markup are replaced by entities, one character after the other
over the whole text. The ampersand comes first, so that the ampersands of the entities stay.
-/

namespace MathMarkup.Xml

/-- The text with every occurrence of a character replaced. -/
def replaceAll (c : Char) (replacement : Text) (t : Text) : Text :=
  t.flatMap fun d => if d = .scalar c then replacement else [d]

/-- The text with its markup characters replaced by entities. -/
def escape (t : Text) : Text :=
  replaceAll '\'' "&apos;" (replaceAll '"' "&quot;" (replaceAll '<' "&lt;"
    (replaceAll '>' "&gt;" (replaceAll '&' "&amp;" t))))

example : escape (Text.ofString "a&lt;\"'") = Text.ofString "a&amp;lt;&quot;&apos;" := by decide

end MathMarkup.Xml

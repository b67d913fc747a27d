import MathMarkup.Value.Yaml.Reader

/-!
# Values from YAML

A reader for the part of YAML that symbol files and option files are usually written in, without
anchors, tags, directives and block scalars, and with no types but null, truth values, numbers and
texts. What reads files takes any reader; this is one of them.

A text is read as a tree of nodes, and the tree is given its value. A byte order mark at the start
is skipped, and a text with a control character is refused; so is a carriage return, which a file no
longer holds when it is read.
-/

namespace MathMarkup.Value

/-- The text without a byte order mark at its start. -/
def Yaml.dropMark : Text → Text
  | .scalar '\uFEFF' :: rest => rest
  | t => t

/-- Whether the code point may stand in a file: tab, line feed, next line, and what is neither a
control character nor a surrogate nor U+FFFE or U+FFFF. -/
def Yaml.isAllowed (c : CodePoint) : Bool :=
  c.inRanges [(0x09, 0x0A), (0x20, 0x7E), (0x85, 0x85), (0xA0, 0xD7FF), (0xE000, 0xFFFD),
    (0x10000, 0x10FFFF)]

/-- The value written by a text of the supported part of YAML. A text without content is null. -/
def ofYaml (t : Text) : Except Yaml.Error Value :=
  if t.all Yaml.isAllowed then do (← Yaml.readDocument (Yaml.dropMark t)).value
  else .error .malformed

example : ((ofYaml (Text.ofString "a:\n  5: five\n  true: yes\n")).toOption.bind fun v =>
    v.literal.toOption) = some (Text.ofString "\x7b'a': \x7b5: 'five', True: True\x7d\x7d") := by
  decide +kernel
example : (ofYaml (Text.ofString "a: b: c")).toOption.isNone = true := by decide +kernel
example : (ofYaml (Text.ofString "\"a\n b\": [x: y]#c")).toOption.isNone = true := by
  decide +kernel

end MathMarkup.Value

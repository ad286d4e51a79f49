import ScriptLens.Text.Ranges

/-!
White space, and texts cut free of it at their ends.
-/

namespace ScriptLens.Text

/-- Characters with the property White_Space. -/
def whiteSpace : Ranges :=
  [(9, 13), (32, 32), (133, 133), (160, 160), (5760, 5760), (8192, 8202), (8232, 8233),
   (8239, 8239), (8287, 8287), (12288, 12288)]

def isSpace (c : Char) : Bool := whiteSpace.has c.toNat

def trimStart (text : List Char) : List Char := text.dropWhile isSpace

def trimEnd (text : List Char) : List Char := (text.reverse.dropWhile isSpace).reverse

def trim (text : List Char) : List Char := trimEnd (trimStart text)

/-- Whether a text holds white space only. -/
def isVoid (text : List Char) : Bool := text.all isSpace

end ScriptLens.Text

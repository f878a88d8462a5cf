/-! Coloured output.

A style is a list of terminal codes. `paint` writes the codes, the text and a reset; if the text
holds resets of its own the codes are written again after each of them. Without colours the text
stays as it is.
-/

namespace DrumPractice

/-- Terminal codes, in the order in which they are written. -/
structure Style where
  codes : List String
  deriving DecidableEq, Repr

namespace Style

def bold : Style := ⟨["1"]⟩
def dimmed : Style := ⟨["2"]⟩
def red : Style := ⟨["31"]⟩
def green : Style := ⟨["32"]⟩
def yellow : Style := ⟨["33"]⟩
def cyan : Style := ⟨["36"]⟩
def brightRed : Style := ⟨["91"]⟩
def brightGreen : Style := ⟨["92"]⟩
def brightYellow : Style := ⟨["93"]⟩
def brightCyan : Style := ⟨["96"]⟩
def boldBrightCyan : Style := ⟨["1", "96"]⟩
def boldBrightRed : Style := ⟨["1", "91"]⟩
def boldBrightMagenta : Style := ⟨["1", "95"]⟩

/-- The code that starts the style. -/
def start (style : Style) : List Char :=
  ('\x1b' :: '[' :: (String.intercalate ";" style.codes).toList) ++ ['m']

/-- The text with `code` written again after each reset. -/
def restart (code : List Char) : List Char → List Char
  | '\x1b' :: '[' :: '0' :: 'm' :: text => '\x1b' :: '[' :: '0' :: 'm' :: code ++ restart code text
  | c :: text => c :: restart code text
  | [] => []

/-- The text in a style, if `colors` are on. -/
def paint (style : Style) (colors : Bool) (text : String) : String :=
  if colors then
    String.ofList (style.start ++ restart style.start text.toList ++ ['\x1b', '[', '0', 'm'])
  else text

@[simp] theorem paint_false (style : Style) (text : String) : style.paint false text = text := rfl

end Style

end DrumPractice

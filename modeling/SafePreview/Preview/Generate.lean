import SafePreview.Block.Forest
import SafePreview.Markup.Reference
import SafePreview.Preview.LineMap

/-!
# Markup of blocks

Each kind of block has one fixed form in markup, with its texts escaped in the places left for them.
A text is first brought into one form: every line end is a line feed and no NUL is left. Fragments
stand on lines of their own, in the order of the blocks, and the map records the lines of each.
-/

namespace SafePreview

/-- A text whose line ends are line feeds and that holds no NUL. -/
def normaliseLines : List Char → List Char
  | [] => []
  | '\r' :: '\n' :: rest => '\n' :: normaliseLines rest
  | c :: rest =>
    if c = '\r' then '\n' :: normaliseLines rest
    else if c = '\x00' then normaliseLines rest
    else c :: normaliseLines rest

/-- Text between tags. -/
def writtenText (s : String) : List Char := Markup.escapeText (normaliseLines s.toList)

/-- The value of an attribute. -/
def writtenValue (s : String) : List Char := Markup.escapeValue (normaliseLines s.toList)

/-- An element with a name, with attributes already written, around a text. -/
def element (name attributes : String) (content : String) : List Char :=
  '<' :: name.toList ++ attributes.toList ++ '>' :: writtenText content
    ++ ['<', '/'] ++ name.toList ++ ['>']

/-- **The markup of a block.** -/
def Kind.fragment : Kind → List Char
  | .text content => element "p" "" content
  | .heading level content => element ("h" ++ level.text) "" content
  | .image url altText =>
    "<img src=\"".toList ++ writtenValue url ++ "\" alt=\"".toList ++ writtenValue altText
      ++ "\">".toList
  | .link url label =>
    "<a href=\"".toList ++ writtenValue url ++ "\">".toList ++ writtenText label
      ++ "</a>".toList
  | .color value content => element "span" (" style=\"color: " ++ value.text ++ "\"") content
  | .fontSize size content => element "span" (" style=\"font-size: " ++ size.text ++ "\"") content

/-- **Markup and the lines of its blocks.** -/
structure Generated where
  markup : String
  map : LineMap
deriving DecidableEq

/-- Pieces on lines of their own. -/
def joinLines (pieces : List (List Char)) : List Char := ['\n'].intercalate pieces

/-- The lines that the blocks stand on. -/
def LineMap.ofBlocks (blocks : List Block) : LineMap :=
  blocks.foldl (fun map block => map.append block.id (Text.newlines block.kind.fragment + 1)) .empty

/-- **The markup of blocks, in the order given.** -/
def generate (blocks : List Block) : Generated where
  markup := String.ofList (joinLines (blocks.map (·.kind.fragment)))
  map := .ofBlocks blocks

/-- The markup of stored blocks, in the order given. If one cannot be shown, none is. -/
def generateWires (wires : List WireBlock) : Except BlockError Generated := do
  return generate (← Block.ofWires wires)

/-- The markup of a forest, in reading order. -/
def Forest.generate (forest : Forest) : Generated := SafePreview.generate forest.blocks

end SafePreview

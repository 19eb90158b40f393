import Rukkit.Protocol.Nbt

/-!
# Text components

The model of `rukkit-protocol/src/text.rs`: the component tree and its network NBT
form.  The JSON form is made by a serializer outside the repository.
-/

namespace Rukkit.Protocol

/-- The sixteen named colours vanilla accepts. -/
inductive NamedColor where
  | black
  | darkBlue
  | darkGreen
  | darkAqua
  | darkRed
  | darkPurple
  | gold
  | gray
  | darkGray
  | blue
  | green
  | aqua
  | red
  | lightPurple
  | yellow
  | white
deriving DecidableEq, Repr

def NamedColor.asStr : NamedColor → String
  | .black => "black"
  | .darkBlue => "dark_blue"
  | .darkGreen => "dark_green"
  | .darkAqua => "dark_aqua"
  | .darkRed => "dark_red"
  | .darkPurple => "dark_purple"
  | .gold => "gold"
  | .gray => "gray"
  | .darkGray => "dark_gray"
  | .blue => "blue"
  | .green => "green"
  | .aqua => "aqua"
  | .red => "red"
  | .lightPurple => "light_purple"
  | .yellow => "yellow"
  | .white => "white"

/-- Literal or translatable text plus styling and children. -/
structure Component where
  text : Option String
  translate : Option String
  color : Option String
  bold : Option Bool
  italic : Option Bool
  underlined : Option Bool
  strikethrough : Option Bool
  obfuscated : Option Bool
  extra : List Component

namespace Component

/-- `Component::text`: a literal-text component. -/
def literal (text : String) : Component where
  text := some text
  translate := none
  color := none
  bold := none
  italic := none
  underlined := none
  strikethrough := none
  obfuscated := none
  extra := []

/-- `Component::color`. -/
def withColor (c : Component) (color : NamedColor) : Component :=
  { c with color := some color.asStr }

/-- The entry of a field that is set. -/
def insertSome {α : Type} (entries : List (String × NbtTag)) (key : String) (field : Option α)
    (tag : α → NbtTag) : List (String × NbtTag) :=
  match field with
  | some value => nbtInsert entries key (tag value)
  | none => entries

/-- `NbtTag::from(bool)`. -/
def boolTag (value : Bool) : NbtTag := .byte (if value then 1 else 0)

/-- The entries of a component whose children have been converted. -/
def entries (text translate color : Option String)
    (bold italic underlined strikethrough obfuscated : Option Bool) (children : List NbtTag) :
    List (String × NbtTag) :=
  let c := insertSome [] "text" text .string
  let c := insertSome c "translate" translate .string
  let c := insertSome c "color" color .string
  let c := insertSome c "bold" bold boolTag
  let c := insertSome c "italic" italic boolTag
  let c := insertSome c "underlined" underlined boolTag
  let c := insertSome c "strikethrough" strikethrough boolTag
  let c := insertSome c "obfuscated" obfuscated boolTag
  if children.isEmpty then c
  else insertSome c "extra" (nbtListNew children) id

mutual

/-- Converts to the network NBT form. -/
def toNbt : Component → NbtTag
  | ⟨text, translate, color, bold, italic, underlined, strikethrough, obfuscated, extra⟩ =>
      .compound (entries text translate color bold italic underlined strikethrough obfuscated
        (toNbtAll extra))

def toNbtAll : List Component → List NbtTag
  | [] => []
  | c :: cs => toNbt c :: toNbtAll cs

end

end Component

end Rukkit.Protocol

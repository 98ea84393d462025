namespace ClamSyntax

/-- Nested data, written with every part on a line of its own and a comma behind it, four spaces
deeper than what it is part of. -/
inductive Outline where
  | word (text : List Char)
  | list (items : List Outline)
  | tuple (name : String) (items : List Outline)
  | record (name : String) (fields : List (String × Outline))

namespace Outline

def lineBreak (depth : Nat) : List Char := '\n' :: List.replicate (4 * depth) ' '

mutual

def write (depth : Nat) : Outline → List Char
  | word text => text
  | list [] => ['[', ']']
  | list items => '[' :: (writeItems depth items ++ (lineBreak depth ++ [']']))
  | tuple name items => name.toList ++ '(' :: (writeItems depth items ++ (lineBreak depth ++ [')']))
  | record name fields =>
    name.toList ++ ' ' :: '{' :: (writeFields depth fields ++ (lineBreak depth ++ ['}']))

def writeItems (depth : Nat) : List Outline → List Char
  | [] => []
  | item :: rest =>
    lineBreak (depth + 1) ++ (item.write (depth + 1) ++ ',' :: writeItems depth rest)

def writeFields (depth : Nat) : List (String × Outline) → List Char
  | [] => []
  | (name, value) :: rest =>
    lineBreak (depth + 1) ++ (name.toList ++ (':' :: ' ' ::
      (value.write (depth + 1) ++ ',' :: writeFields depth rest)))

end

def text (outline : Outline) : String := String.ofList (outline.write 0)

end Outline

end ClamSyntax

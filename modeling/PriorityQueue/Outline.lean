/-!
# Outlines

An outline is the shape of a described value: a word, a named part, or a bracketed group of
outlines that may carry a label. `Outline.compact` writes it on one line. `Outline.indented`
writes every member of a nonempty group on lines of its own, one level deeper and followed by a
comma. `Describe` is the class of types whose values have an outline.

Text among the words is quoted: a string stands between double quotes and a character between
single quotes. The quote in use, the backslash and the characters that would not stay in place when
printed are written as escape sequences; every other character stands for itself.
-/

namespace PriorityQueue

universe u

namespace Quoted

/-- Whether a character is a control character, which has no visible form. -/
def isControl (char : Char) : Bool :=
  decide (char.toNat < 0x20) || (decide (0x7f ≤ char.toNat) && decide (char.toNat < 0xa0))

/-- The form of a character between two of the given quotes. -/
def escape (quote char : Char) : List Char :=
  if char = quote then ['\\', quote]
  else if char = '\\' then ['\\', '\\']
  else if char = '\t' then ['\\', 't']
  else if char = '\n' then ['\\', 'n']
  else if char = '\r' then ['\\', 'r']
  else if char.toNat = 0 then ['\\', '0']
  else if isControl char then
    ['\\', 'u', '\x7b'] ++ Nat.toDigits 16 char.toNat ++ ['\x7d']
  else [char]

/-- A text between two of the given quotes. -/
def between (quote : Char) (text : List Char) : List Char :=
  quote :: (text.flatMap (escape quote) ++ [quote])

/-- The quoted form of a string. -/
def ofString (text : String) : String := String.ofList (between '\x22' text.toList)

/-- The quoted form of a character. -/
def ofChar (char : Char) : String := String.ofList (between '\x27' [char])

end Quoted

/-- The pair of brackets around a group. -/
inductive Bracket where
  /-- Square brackets, around the elements of a sequence. -/
  | square
  /-- Round brackets, around parts known by their place. -/
  | round
  /-- Curly brackets, around parts known by their name. -/
  | curly
deriving DecidableEq

namespace Bracket

/-- The mark before the members. -/
def opening : Bracket → String
  | .square => "["
  | .round => "("
  | .curly => " \x7b"

/-- The mark after the members. -/
def closing : Bracket → String
  | .square => "]"
  | .round => ")"
  | .curly => "\x7d"

/-- The space kept between the marks and the members on one line. -/
def padding : Bracket → String
  | .square => ""
  | .round => ""
  | .curly => " "

end Bracket

/-- The shape of a described value. -/
inductive Outline where
  /-- A word that is never broken over lines. -/
  | word (text : String)
  /-- A part known by its name. -/
  | part (name : String) (value : Outline)
  /-- A bracketed group behind a label, which may be empty. -/
  | group (label : String) (bracket : Bracket) (members : List Outline)

/-- The two ways to write an outline. -/
inductive Layout where
  /-- Everything on one line. -/
  | compact
  /-- Every member of a group on lines of its own. -/
  | indented
deriving DecidableEq

namespace Outline

/-- The group of the elements of a sequence. -/
def sequence (members : List Outline) : Outline := .group "" .square members

/-- A label followed by parts known by their place. -/
def labelled (label : String) (members : List Outline) : Outline := .group label .round members

/-- A label followed by parts known by their name. -/
def record (label : String) (parts : List (String × Outline)) : Outline :=
  .group label .curly (parts.map fun named => .part named.1 named.2)

mutual
/-- The one-line form of an outline. -/
def compact : Outline → String
  | .word text => text
  | .part name value => name ++ ": " ++ value.compact
  | .group label bracket members =>
    label ++ bracket.opening ++ bracket.padding ++ ", ".intercalate (compactAll members) ++
      bracket.padding ++ bracket.closing

/-- The one-line forms of several outlines. -/
def compactAll : List Outline → List String
  | [] => []
  | member :: members => member.compact :: compactAll members
end

/-- The lines of a member of a group: one level deeper, with a comma at the end. -/
def asMember : List String → List String
  | [] => []
  | [last] => ["    " ++ last ++ ","]
  | line :: lines => ("    " ++ line) :: asMember lines

/-- The lines of a named part: the name stands before the first line of the value. -/
def named (name : String) : List String → List String
  | [] => []
  | line :: lines => (name ++ ": " ++ line) :: lines

mutual
/-- The lines of an outline; an empty group stays on one line. -/
def lines : Outline → List String
  | .word text => [text]
  | .part name value => named name value.lines
  | .group label bracket [] => [label ++ bracket.opening ++ bracket.closing]
  | .group label bracket (member :: members) =>
    (label ++ bracket.opening) :: (linesAll (member :: members) ++ [bracket.closing])

/-- The lines of the members of a group. -/
def linesAll : List Outline → List String
  | [] => []
  | member :: members => asMember member.lines ++ linesAll members
end

/-- The form of an outline with one member a line. -/
def indented (outline : Outline) : String := "\n".intercalate outline.lines

/-- The text of an outline in either layout. -/
def render (outline : Outline) : Layout → String
  | .compact => outline.compact
  | .indented => outline.indented

end Outline

/-- Values of the type have an outline. -/
class Describe (α : Type u) where
  /-- The outline of a value. -/
  outline : α → Outline

export Describe (outline)

/-- The text of a value in either layout. -/
def describe {α : Type u} [Describe α] (layout : Layout) (value : α) : String :=
  (outline value).render layout

instance instDescribeInt : Describe Int where
  outline value := .word (toString value)

instance instDescribeNat : Describe Nat where
  outline value := .word (toString value)

instance instDescribeBool : Describe Bool where
  outline value := .word (if value then "true" else "false")

instance instDescribeUnit : Describe Unit where
  outline _ := .word "()"

instance instDescribeChar : Describe Char where
  outline char := .word (Quoted.ofChar char)

instance instDescribeString : Describe String where
  outline text := .word (Quoted.ofString text)

instance instDescribeOption {α : Type u} [Describe α] : Describe (Option α) where
  outline
    | none => .word "None"
    | some value => .labelled "Some" [outline value]

instance instDescribeList {α : Type u} [Describe α] : Describe (List α) where
  outline values := .sequence (values.map outline)

end PriorityQueue

-- Outlines: the nested form in which tokens and trees are listed, either on
-- one line or with one part a line.
import BraceScript.Text.Quoted

namespace BraceScript

/-- A listing of nested parts. A record's parts have names; there are as
many names as parts. -/
inductive Outline where
  | atom (text : String)
  | list (items : List Outline)
  | tuple (title : String) (items : List Outline)
  | record (title : String) (names : List String) (parts : List Outline)

namespace Outline

/-! ## On one line -/

mutual

/-- The outline on one line, behind what is already written. -/
def lineOnto (out : String) : Outline → String
  | .atom text => out ++ text
  | .list items => itemsOnto (out ++ "[") "" items ++ "]"
  | .tuple title items => itemsOnto (out ++ title ++ "(") "" items ++ ")"
  | .record title names parts => partsOnto (out ++ title ++ " \x7b ") "" names parts ++ " \x7d"

/-- Items with commas between them. -/
def itemsOnto (out between : String) : List Outline → String
  | [] => out
  | item :: items => itemsOnto (lineOnto (out ++ between) item) ", " items

/-- Named parts with commas between them. -/
def partsOnto (out between : String) (names : List String) : List Outline → String
  | [] => out
  | part :: parts =>
    partsOnto (lineOnto (out ++ between ++ names.headD "" ++ ": ") part) ", " names.tail parts

end

def line (o : Outline) : String := lineOnto "" o

/-! ## One part a line -/

/-- The blanks at the front of a line at some depth. -/
def margin (depth : Nat) : String := String.ofList (List.replicate (4 * depth) ' ')

mutual

/-- The outline with one part a line, behind what is already written. Empty
lists stay on their line. -/
def linesOnto (depth : Nat) (out : String) : Outline → String
  | .atom text => out ++ text
  | .list [] => out ++ "[]"
  | .list items => itemLinesOnto (depth + 1) (out ++ "[\n") items ++ margin depth ++ "]"
  | .tuple title items =>
    itemLinesOnto (depth + 1) (out ++ title ++ "(\n") items ++ margin depth ++ ")"
  | .record title names parts =>
    partLinesOnto (depth + 1) (out ++ title ++ " \x7b\n") names parts ++ margin depth ++ "\x7d"

/-- Items, one a line. -/
def itemLinesOnto (depth : Nat) (out : String) : List Outline → String
  | [] => out
  | item :: items =>
    itemLinesOnto depth (linesOnto depth (out ++ margin depth) item ++ ",\n") items

/-- Named parts, one a line. -/
def partLinesOnto (depth : Nat) (out : String) (names : List String) : List Outline → String
  | [] => out
  | part :: parts =>
    partLinesOnto depth
      (linesOnto depth (out ++ margin depth ++ names.headD "" ++ ": ") part ++ ",\n")
      names.tail parts

end

def lines (o : Outline) : String := linesOnto 0 "" o

/-! ## Common parts -/

def ofText (text : String) : Outline := .atom (Text.quoted text)

def ofTexts (texts : List String) : Outline := .list (texts.map ofText)

def ofBool (b : Bool) : Outline := .atom (if b then "true" else "false")

/-- Something that may be missing. -/
def ofOption : Option Outline → Outline
  | none => .atom "None"
  | some o => .tuple "Some" [o]

end Outline

end BraceScript

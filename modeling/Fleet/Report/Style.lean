/-
# Styled text

Terminal styles: a code before the text and a reset behind it. A reset inside the text takes the
style up again. Text is padded inside its style.
-/

import Fleet.Text.Split

namespace Fleet.Report

/-- The sequence that ends a style. -/
def reset : List Char := "\x1b[0m".toList

/-- The text with the characters `again` put behind every `mark` in it. -/
def insertAfter (mark again : List Char) : (fuel : Nat) → List Char → List Char
  | 0, cs => cs
  | _ + 1, [] => []
  | fuel + 1, c :: rest =>
    if mark.isPrefixOf (c :: rest) then
      mark ++ again ++ insertAfter mark again fuel ((c :: rest).drop mark.length)
    else c :: insertAfter mark again fuel rest

/-- The text filled up with spaces to a width. -/
def padTo (width : Nat) (cs : List Char) : List Char :=
  cs ++ List.replicate (width - cs.length) ' '

/-- Whether styles are written at all. -/
abbrev Color := Bool

/-- The text in the style of a code, filled up to a width. -/
def styled (color : Color) (code : String) (width : Nat) (text : String) : String :=
  let cs := text.toList
  if color then
    let start := '\x1b' :: '[' :: code.toList ++ ['m']
    String.ofList (start ++ padTo width (insertAfter reset start (cs.length + 1) cs) ++ reset)
  else String.ofList (padTo width cs)

/-- Strong text. -/
def bold : String := "1"

/-- Faint text. -/
def dimmed : String := "2"

/-- Red text, for failures. -/
def red : String := "31"

/-- Strong red text. -/
def boldRed : String := "1;31"

/-- Green text, for what is as it should be. -/
def green : String := "32"

/-- Yellow text, for changes. -/
def yellow : String := "33"

/-- Blue-green text, for what was skipped. -/
def cyan : String := "36"

end Fleet.Report

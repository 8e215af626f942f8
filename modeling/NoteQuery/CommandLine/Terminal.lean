/-
Text for places that show no colours.

A colour sequence is an escape character, an opening bracket, digits and separators, and a
letter.  Where no colours are shown the sequences are taken out.
-/
namespace NoteQuery.CommandLine

/-- A character between the bracket and the letter of a colour sequence. -/
def isColourParameter (c : Char) : Bool :=
  c.isDigit || c == ';' || c == '?'

/-- How many characters a colour sequence that stands here has. -/
def colourLength? : List Char → Option Nat
  | '\x1b' :: '[' :: cs =>
    let parameters := cs.takeWhile isColourParameter
    match cs.drop parameters.length with
    | c :: _ => if c.isAlpha then some (parameters.length + 3) else none
    | [] => none
  | _ => none

/-- Takes out colour sequences, when `covered` characters still belong to the one found last. -/
def dropColours : (covered : Nat) → List Char → List Char
  | _, [] => []
  | covered + 1, _ :: cs => dropColours covered cs
  | 0, c :: cs =>
    match colourLength? (c :: cs) with
    | some length => dropColours (length - 1) cs
    | none => c :: dropColours 0 cs

/-- The text without colour sequences. -/
def withoutColours (s : String) : String :=
  String.ofList (dropColours 0 s.toList)

/-- A line without colour sequences. -/
def plainLine (s : String) : String :=
  withoutColours s ++ "\n"

end NoteQuery.CommandLine

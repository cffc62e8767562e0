import MachineMonitor.Json.Quoted
import MachineMonitor.Json.Value

/-!
# Reading JSON

A value may be surrounded by blanks and nothing else. Reading checks the syntax alone; whether the
value found is readable is asked afterwards, because a value that nobody looks at need not be.
-/

namespace MachineMonitor.Json

/-- The characters that may stand between two symbols. -/
def isBlank (c : Char) : Bool := c == ' ' || c == '\t' || c == '\n' || c == '\r'

/-- Drops the blanks at the beginning. -/
def skipBlanks (cs : List Char) : List Char := cs.dropWhile isBlank

/-- What follows a word at the beginning. -/
def afterWord? (word cs : List Char) : Option (List Char) :=
  if word.isPrefixOf cs then some (cs.drop word.length) else none

/-- Splits off the rest of a string whose opening quote has been read. -/
def scanString? (cs : List Char) : Option (Option String × List Char) :=
  (Quoted.scan? cs).map fun (pieces, rest) => ((Quoted.join pieces).map String.ofList, rest)

/-- Splits off the key of a member and the colon after it. -/
def scanKey? (cs : List Char) : Option (Option String × List Char) :=
  match skipBlanks cs with
  | '"' :: cs =>
    match scanString? cs with
    | some (key, cs) =>
      match skipBlanks cs with
      | ':' :: cs => some (key, cs)
      | _ => none
    | none => none
  | _ => none

mutual

/-- Splits off a value. Every call below takes away at least one character, so `fuel` never runs out
when it exceeds the length of the text. -/
def scanValue? : Nat → List Char → Option (Value × List Char)
  | 0, _ => none
  | fuel + 1, cs =>
    match skipBlanks cs with
    | [] => none
    | c :: cs =>
      if c = '"' then (scanString? cs).map fun (text, cs) => (.string text, cs)
      else if c = '[' then
        match skipBlanks cs with
        | ']' :: cs => some (.array [], cs)
        | cs => do
          let (v, cs) ← scanValue? fuel cs
          let (vs, cs) ← scanElements? fuel cs
          return (.array (v :: vs), cs)
      else if c = '\x7b' then
        match skipBlanks cs with
        | '\x7d' :: cs => some (.object [], cs)
        | cs => do
          let (key, cs) ← scanKey? cs
          let (v, cs) ← scanValue? fuel cs
          let (members, cs) ← scanMembers? fuel cs
          return (.object ((key, v) :: members), cs)
      else if c = 'n' then (afterWord? ['u', 'l', 'l'] cs).map fun cs => (.null, cs)
      else if c = 't' then (afterWord? ['r', 'u', 'e'] cs).map fun cs => (.bool true, cs)
      else if c = 'f' then (afterWord? ['a', 'l', 's', 'e'] cs).map fun cs => (.bool false, cs)
      else (Number.scan? (c :: cs)).map fun (n, cs) => (.number n, cs)

/-- Splits off the elements of an array after the first one, and its end. -/
def scanElements? : Nat → List Char → Option (List Value × List Char)
  | 0, _ => none
  | fuel + 1, cs =>
    match skipBlanks cs with
    | ']' :: cs => some ([], cs)
    | ',' :: cs => do
      let (v, cs) ← scanValue? fuel cs
      let (vs, cs) ← scanElements? fuel cs
      return (v :: vs, cs)
    | _ => none

/-- Splits off the members of an object after the first one, and its end. -/
def scanMembers? : Nat → List Char → Option (Members × List Char)
  | 0, _ => none
  | fuel + 1, cs =>
    match skipBlanks cs with
    | '\x7d' :: cs => some ([], cs)
    | ',' :: cs => do
      let (key, cs) ← scanKey? cs
      let (v, cs) ← scanValue? fuel cs
      let (members, cs) ← scanMembers? fuel cs
      return ((key, v) :: members, cs)
    | _ => none

end

/-- The value that a text holds. -/
def Value.parse? (input : String) : Option Value :=
  let cs := input.toList
  match scanValue? (cs.length + 1) cs with
  | some (v, rest) => if skipBlanks rest = [] then some v else none
  | none => none

end MachineMonitor.Json

import Civfix.TicketTexts
import Civfix.Patterns
import Mathlib.Data.List.Infix

/-! # Framing lines in city mail

The pattern that finds the reference code of a ticket in a message that quotes its framing line. -/
namespace Civfix.FramingLines

open CodeUnits Patterns TicketTexts

def sameLetter (c d : CodeUnit) : Bool := decide (upper c = upper d)

def word (s : String) : Pattern CodeUnit := literal sameLetter (text s)

def spaces (least : ℕ) : Pattern CodeUnit := .many least isSpace

def isHyphen (c : CodeUnit) : Bool := decide (c = hyphen)

/-- `[^\\sA-Za-z0-9]`. -/
def isMark (c : CodeUnit) : Bool := !(isSpace c || isAlnum c)

def oneOf : List Text → Pattern CodeUnit
  | [] => .done
  | [w] => literal sameLetter w
  | w :: ws => .alt (literal sameLetter w) (oneOf ws)

/-- `typeCodes` are the distinct values of `REPORT_TYPE_CODE`. -/
def FRAMING_LINE_RE (typeCodes : List Text) : Grouped CodeUnit where
  before :=
    .seq (word "Reported") <| .seq (spaces 1) <| .seq (word "by") <| .seq (spaces 1) <| .seq (word "a") <|
      .seq (spaces 1) <| .seq (word "resident") <| .seq (spaces 1) <| .seq (word "via") <| .seq (spaces 1) <|
        .seq (word "CivFix") <| .seq (spaces 0) <| .seq (.alt (.seq (.one isMark) (spaces 0)) .done) <|
          .seq (word "ref") (spaces 0)
  group :=
    .seq (oneOf typeCodes) <| .seq (.one isHyphen) <| .seq (.many 1 isDigit) <| .seq (.one isHyphen) (.many 6 isDigit)
  ahead := .notAhead isAlnum

variable (typeCodes : List Text)

/-- The codes of `text.matchAll(FRAMING_LINE_RE)`, in upper case. -/
def framingCodes (t : Text) : List Text := (matchAll (FRAMING_LINE_RE typeCodes).exec t).map (List.map upper)

end Civfix.FramingLines

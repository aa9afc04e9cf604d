/-
# Colours of reports

Traces show the names of productions in blue, matched text in green and failures in red; lines
about tokens given back, and separators, are dim. A plain palette has nothing in the place of each
colour, so that plain and coloured reports differ in colours only.
-/

namespace BoolQuery
namespace Report

/-- The control sequences of a report. -/
structure Palette where
  blue : String
  green : String
  red : String
  dim : String
  /-- Ends any of the others. -/
  reset : String
  deriving DecidableEq, Repr

namespace Palette

/-- The control sequence that selects the given rendition. -/
def select (code : String) : String := "\x1b[" ++ code ++ "m"

/-- A palette with colours. -/
def coloured : Palette where
  blue := select "34"
  green := select "32"
  red := select "31"
  dim := select "2"
  reset := select "0"

/-- A palette without any. -/
def plain : Palette := ⟨"", "", "", "", ""⟩

/-- The palette of a report that is coloured or not. -/
def of (enabled : Bool) : Palette := if enabled then coloured else plain

instance : Inhabited Palette := ⟨plain⟩

end Palette

end Report
end BoolQuery

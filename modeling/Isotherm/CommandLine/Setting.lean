/-!
# Options of the command line

The options, how they are spelled, and what kind of value each of them takes.
-/

namespace Isotherm.CommandLine

inductive Setting where
  | help | random | seed | attempts | listFunctions | simplify | latex | verbose
  | heatColourCount | speed | pointSize | scale | timeLower | timeUpper | size | outputFile
  | footerText | version
deriving DecidableEq, Repr

inductive ValueKind where
  | integer | real | text
deriving DecidableEq, Repr

def ValueKind.name : ValueKind → String
  | integer => "int"
  | real => "float"
  | text => "str"

namespace Setting

def spelling : Setting → String
  | help => "--help"
  | random => "--random"
  | seed => "--seed"
  | attempts => "--attempts"
  | listFunctions => "--list-functions"
  | simplify => "--simplify"
  | latex => "--latex"
  | verbose => "--verbose"
  | heatColourCount => "--hcc"
  | speed => "--speed"
  | pointSize => "--point-size"
  | scale => "--scale"
  | timeLower => "--tlb"
  | timeUpper => "--tub"
  | size => "--size"
  | outputFile => "--output-file"
  | footerText => "--footer-text"
  | version => "--version"

def all : List Setting :=
  [help, random, seed, attempts, listFunctions, simplify, latex, verbose, heatColourCount, speed,
   pointSize, scale, timeLower, timeUpper, size, outputFile, footerText, version]

/-- The one short spelling, which is one for help. -/
def shortHelp : String := "-h"

def label : Setting → String
  | help => shortHelp ++ "/" ++ help.spelling
  | s => s.spelling

def ofSpelling? (text : String) : Option Setting :=
  all.find? fun s => s.spelling == text

/-- The options whose long spelling starts with `text`. -/
def startingWith (text : String) : List Setting :=
  all.filter fun s => s.spelling.startsWith text

/-- The kind of value of an option; none for a switch. -/
def valueKind? : Setting → Option ValueKind
  | help | random | listFunctions | simplify | latex | verbose | version => none
  | pointSize => some .real
  | outputFile | footerText => some .text
  | seed | attempts | heatColourCount | speed | scale | timeLower | timeUpper | size =>
    some .integer

end Setting
end Isotherm.CommandLine

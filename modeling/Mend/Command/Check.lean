import Mend.Command.Files
import Mend.Command.Output
import Mend.Parse
import Mend.Report.Json

/-!
# Checking files

The files are read and parsed one after the other, and what was repaired in them is reported. A
file that cannot be read or parsed is complained of, and the next one is taken up. In text a repair
is reported at once; in JSON the reports are gathered and written when all files are done. The
status is two if a file could not be read or parsed, one if anything was repaired, and zero
otherwise.
-/

namespace Mend.Command

/-- A file of which the text was asked for. -/
structure Source where
  name : String
  text : Except ReadFault String

/-- The complaint that a file cannot be read. -/
def unreadable (name : String) (fault : ReadFault) : String :=
  "cannot read " ++ name ++ ": " ++ fault.message

/-- The complaint that parsing a file was given up. -/
def abandoned (name : String) (reason : Abort) : String := name ++ ": " ++ reason.message

/-- The tree of a file, or the complaint about it. -/
def Source.tree (source : Source) (limits : Limits) : Except String Tree :=
  match source.text with
  | .error fault => .error (unreadable source.name fault)
  | .ok text =>
    match Tree.ofText text limits with
    | .ok tree => .ok tree
    | .error reason => .error (abandoned source.name reason)

/-- What the files looked at so far have come to. -/
structure Tally where
  /-- The results written so far. -/
  written : String
  /-- The complaints made so far. -/
  complaints : String
  /-- The reports that are to be written at the end. -/
  reports : List Json
  /-- The number of repairs. -/
  repairs : Nat
  /-- Some file could not be read or parsed. -/
  fatal : Bool

namespace Tally

/-- Nothing has been looked at. -/
def start : Tally := ⟨"", "", [], 0, false⟩

/-- A repair of a file, reported. -/
def report (style : Style) (name : String) (tally : Tally) (d : Diagnostic) : Tally :=
  match style.format with
  | .text =>
    if style.quiet then tally
    else { tally with written := tally.written ++ (name ++ ":" ++ d.render ++ "\n") }
  | .json => { tally with reports := tally.reports ++ [d.toReport name] }

/-- A file that could not be read or parsed, complained of. -/
def fail (style : Style) (tally : Tally) (complaint : String) : Tally :=
  { tally with complaints := tally.complaints ++ style.complain complaint, fatal := true }

/-- One more file, looked at. -/
def add (limits : Limits) (style : Style) (tally : Tally) (source : Source) : Tally :=
  match source.tree limits with
  | .error complaint => tally.fail style complaint
  | .ok tree =>
    tree.diagnostics.foldl (report style source.name)
      { tally with repairs := tally.repairs + tree.diagnostics.length }

/-- The status that the files call for. -/
def status (tally : Tally) : Nat :=
  if tally.fatal then 2 else if tally.repairs > 0 then 1 else 0

end Tally

/-- What is said when nothing was found in some number of files. -/
def allClean (count : Nat) : String := toString count ++ " file(s) parsed without errors\n"

/-- The results, with what is written once all files are done. -/
def Tally.results (style : Style) (files : Nat) (tally : Tally) : String :=
  tally.written ++
    match style.format with
    | .json => (Json.array tally.reports).pretty ++ "\n"
    | .text =>
      if !style.quiet && tally.repairs == 0 && !tally.fatal then allClean files else ""

/-- Check some files. -/
def check (sources : List Source) (limits : Limits) (style : Style) : Output :=
  let tally := sources.foldl (Tally.add limits style) Tally.start
  { status := tally.status
    results := tally.results style sources.length
    complaints := tally.complaints }

end Mend.Command

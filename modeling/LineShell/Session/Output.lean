/-!
# Session/Output — what a session has printed

The output of a session is a log of events. A sink is a way to look at the log: `entries` is what a
buffer holds, where clearing forgets everything before it; a console ignores clearing and shows
every line.
-/

namespace LineShell

/-- A recorded line. -/
structure OutputLine where
  text : String
  isError : Bool := false
  deriving DecidableEq, Repr

/-- Something that happened to the output. -/
inductive OutputEvent where
  | line (line : OutputLine)
  | cleared
  deriving DecidableEq, Repr

/-- The log of a session's output, oldest event first. -/
structure Output where
  events : Array OutputEvent := #[]
  deriving DecidableEq, Repr

namespace Output

/-- Records a normal line. -/
def record (o : Output) (text : String) : Output := ⟨o.events.push (.line ⟨text, false⟩)⟩

/-- Records an error line. -/
def recordError (o : Output) (text : String) : Output := ⟨o.events.push (.line ⟨text, true⟩)⟩

/-- Asks for the output to be cleared. -/
def clear (o : Output) : Output := ⟨o.events.push .cleared⟩

/-- What one event does to a buffer. -/
def buffer (entries : Array OutputLine) : OutputEvent → Array OutputLine
  | .line line => entries.push line
  | .cleared => #[]

/-- The lines recorded since the output was last cleared. -/
def entries (o : Output) : Array OutputLine := o.events.foldl buffer #[]

/-- Every recorded line, cleared or not. -/
def allLines (o : Output) : List OutputLine :=
  o.events.toList.filterMap fun
    | .line line => some line
    | .cleared => none

theorem entries_record (o : Output) (text : String) :
    (o.record text).entries = o.entries.push ⟨text, false⟩ := by
  simp [entries, record, buffer]

theorem entries_recordError (o : Output) (text : String) :
    (o.recordError text).entries = o.entries.push ⟨text, true⟩ := by
  simp [entries, recordError, buffer]

theorem entries_clear (o : Output) : o.clear.entries = #[] := by
  simp [entries, clear, buffer]

theorem allLines_record (o : Output) (text : String) :
    (o.record text).allLines = o.allLines ++ [⟨text, false⟩] := by
  simp [allLines, record]

theorem allLines_recordError (o : Output) (text : String) :
    (o.recordError text).allLines = o.allLines ++ [⟨text, true⟩] := by
  simp [allLines, recordError]

/-- A console keeps what it has shown. -/
theorem allLines_clear (o : Output) : o.clear.allLines = o.allLines := by
  simp [allLines, clear]

/-- The text of the normal lines of a buffer. -/
def lines (o : Output) : List String :=
  (o.entries.toList.filter (!·.isError)).map OutputLine.text

/-- The text of the error lines of a buffer. -/
def errors (o : Output) : List String :=
  (o.entries.toList.filter (·.isError)).map OutputLine.text

/-- All lines of a buffer joined by line feeds. -/
def text (o : Output) : String :=
  "\n".intercalate (o.entries.toList.map OutputLine.text)

end Output

end LineShell

import TypedLang.Diagnostic

/-!
# Printed reports

A report is printed as one line with severity, code and message, one line for every label with the
place where it starts, and one line for every note.
-/

namespace TypedLang

/-- The place of a label: its source, and the location of its start if the source has one there. -/
def Label.place (label : Label) (registry : Registry) : Bytes :=
  match registry.get label.source with
  | .error _ => "<unknown>"
  | .ok source =>
      match source.location label.span.start with
      | none => source.name
      | some location =>
          Bytes.concat
            [source.name, ":", Bytes.ofNat location.line, ":", Bytes.ofNat location.column]

/-- The line of a label. -/
def Label.text (label : Label) (registry : Registry) : Bytes :=
  let message : Bytes := match label.message with
    | none => []
    | some message => Bytes.concat [": ", message]
  Bytes.concat ["  --> ", label.place registry, message, "\n"]

/-- The line of a note. -/
def Report.noteText (note : Bytes) : Bytes :=
  Bytes.concat ["  = note: ", note, "\n"]

/-- The lines of a report. -/
def Report.text (report : Report) (registry : Registry) : Bytes :=
  Bytes.concat
    [report.severity.name, "[", report.code.text, "]: ", report.message, "\n",
      report.labels.flatMap fun label => label.text registry,
      report.notes.flatMap Report.noteText]

/-- The lines of several reports, in order. -/
def Report.textAll (reports : List Report) (registry : Registry) : Bytes :=
  reports.flatMap fun report => report.text registry

end TypedLang

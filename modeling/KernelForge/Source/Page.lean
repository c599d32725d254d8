import KernelForge.Source.Line
import KernelForge.Text.Basic

/-!
# Pages

A page is text under construction with an indentation level and a count of fresh names. The count has
no bound: no text has as many as 2³² fresh names.
-/

namespace KernelForge.Source

/-- Text under construction. -/
structure Page where
  indent : Nat := 0
  text : String := ""
  counter : Nat := 0

namespace Page

/-- One level deeper. -/
def deeper (p : Page) : Page :=
  { p with indent := p.indent + 1 }

/-- One level back; the outermost level stays. -/
def back (p : Page) : Page :=
  { p with indent := p.indent - 1 }

/-- Append text as it is. -/
def write (p : Page) (text : String) : Page :=
  { p with text := p.text ++ text }

/-- Append the blanks of the current level. -/
def writeIndent (p : Page) : Page :=
  p.write (indentation p.indent)

/-- Append a line end. -/
def newline (p : Page) : Page :=
  p.write "\n"

/-- Append a line at the current level. -/
def writeLine (p : Page) (line : String) : Page :=
  (p.writeIndent.write line).newline

/-- Append the lines of a text, each at the current level in addition to its own; empty lines get no
blanks. -/
def writeLines (p : Page) (text : String) : Page :=
  (Text.lines text).foldl (fun p line => if line.isEmpty then p.newline else p.writeLine line) p

/-- A name that was not handed out before: `stem` and a running number. -/
def fresh (p : Page) (stem : String) : String × Page :=
  (stem ++ toString p.counter, { p with counter := p.counter + 1 })

/-- Hand over the text and start a new one; level and count stay. -/
def take (p : Page) : String × Page :=
  (p.text, { p with text := "" })

end Page

end KernelForge.Source

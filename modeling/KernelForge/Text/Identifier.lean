/-!
# Identifiers of the kernel language

Names of fields, parameters, methods and labels come from the analysed program and may hold any
character. `Identifier.ofName` maps each of them to an identifier of the kernel language: ASCII
letters, digits and underscores, not starting with a digit.
-/

namespace KernelForge.Identifier

/-- A character that may occur in an identifier. -/
def isPart (c : Char) : Bool :=
  c.isAlphanum || c == '_'

/-- Whether a name needs an underscore in front: it is empty or opens with a digit. -/
def needsLead : List Char → Bool
  | [] => true
  | c :: _ => c.isDigit

/-- An identifier: not empty, no leading digit, and only characters that may occur in one. -/
def IsIdentifier (cs : List Char) : Prop :=
  needsLead cs = false ∧ ∀ c ∈ cs, isPart c = true

/-- Keep a character that may occur in an identifier and write an underscore for any other. -/
def clean (c : Char) : Char :=
  if isPart c then c else '_'

/-- Map the characters of a name to those of an identifier: every foreign character becomes an
underscore, and an empty name or a leading digit gets an underscore in front. -/
def ofChars (cs : List Char) : List Char :=
  if needsLead cs then '_' :: cs.map clean else cs.map clean

/-- The identifier that stands for `name`. -/
def ofName (name : String) : String :=
  String.ofList (ofChars name.toList)

end KernelForge.Identifier

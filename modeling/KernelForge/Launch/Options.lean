import KernelForge.Device.Catalog
import KernelForge.Launch.Error
import KernelForge.Text.Basic

/-!
# Options

Which platform and device to use, and how host contexts run their work-items. Options are read from
named settings: an unset one keeps its default, and a wrong one is reported with its text. A setting
of its own, the filter for messages, is read when logging is first started.
-/

namespace KernelForge.Launch

open Device (DeviceProfile PlatformProfile)

/-- How host contexts run work-items. -/
inductive Strategy
  /-- On threads that are always there. -/
  | parallel
  /-- On a pool of threads of its own. -/
  | pool
deriving DecidableEq

/-- The name of a strategy as diagnostics show it. -/
def Strategy.title : Strategy → String
  | parallel => "Parallel"
  | pool => "Pool"

/-- Read a strategy. White space around it and the case of ASCII letters do not matter. -/
def Strategy.parse? (text : String) : Option Strategy :=
  let word := Text.lowerAscii (Text.trim text)
  if word = "parallel" then some .parallel
  else if word = "pool" then some .pool
  else none

/-- How platforms are chosen and host contexts are run. -/
structure Options where
  /-- Whether a platform may be used. -/
  accepts : PlatformProfile → Bool := fun _ => true
  /-- The order of devices: the greatest is used. -/
  rank : DeviceProfile → DeviceProfile → Ordering :=
    fun a b => compare a.computeUnits b.computeUnits
  strategy : Strategy := .parallel
  /-- The driver library to load. -/
  library : Option String := none
  /-- The number of threads of a pool; by default what the machine has. -/
  threads : Option Nat := none

namespace Options

/-- The setting that names a driver library. -/
def librarySetting : String := "KIR_OPENCL_LIBRARY"

/-- The setting that names a strategy. -/
def strategySetting : String := "KIR_CPU_STRATEGY"

/-- The setting that gives the number of threads of a pool. -/
def threadsSetting : String := "KIR_CPU_THREADS"

/-- The value of decimal digits, nothing if there are none or another character is among them. -/
def digits? (cs : List Char) : Option Nat :=
  if cs.isEmpty ∨ !cs.all Char.isDigit then none
  else some (cs.foldl (fun n c => 10 * n + (c.toNat - '0'.toNat)) 0)

/-- Read a positive number of 64 bits. White space around it does not matter, and it may start with a
plus sign. -/
def parseThreads? (text : String) : Option Nat :=
  let cs := (Text.trim text).toList
  let cs := match cs with
    | '+' :: rest => rest
    | _ => cs
  (digits? cs).filter fun n => 0 < n ∧ n ≤ 0xFFFFFFFFFFFFFFFF

/-- Read options from settings. An empty library name counts as unset. -/
def ofSettings (setting? : String → Option String) : Except Error Options := do
  let library := (setting? librarySetting).filter fun path => !path.isEmpty
  let strategy ← match setting? strategySetting with
    | none => pure Strategy.parallel
    | some text =>
      match Strategy.parse? text with
      | some strategy => pure strategy
      | none => throw (.badStrategy strategySetting text)
  let threads ← match setting? threadsSetting with
    | none => pure none
    | some text =>
      match parseThreads? text with
      | some threads => pure (some threads)
      | none => throw (.badThreads threadsSetting text)
  return { strategy, library, threads }

/-- A value that may be missing, as diagnostics show it. -/
def describeOption : Option String → String
  | none => "None"
  | some text => "Some(" ++ text ++ ")"

/-- Options as diagnostics show them. What chooses platforms and devices has no text. -/
def describe (o : Options) : String :=
  "Options \x7b cpu_strategy: " ++ o.strategy.title ++
    ", library_path: " ++ describeOption (o.library.map Escaped.quote) ++
    ", threads: " ++ describeOption (o.threads.map toString) ++ ", .. \x7d"

end Options

/-- Ready-made tests for the name of a platform. -/
inductive NameTest
  | contains (text : String)
  | equals (text : String)
  | differs (text : String)

/-- The test of a given name for a given text. -/
def NameTest.named? (word text : String) : Option NameTest :=
  [("contains", contains text), ("equals", equals text), ("not", differs text)].lookup word

/-- Whether a platform passes a test of its name. -/
def NameTest.accepts (t : NameTest) (p : PlatformProfile) : Bool :=
  match t with
  | contains text => Text.contains p.name text
  | equals text => p.name = text
  | differs text => p.name ≠ text

/-- Ready-made orders of devices. -/
inductive Ranking
  | units
  | fewestUnits
  | clock
  | group
  | name
  /-- No device is greater than another. -/
  | equal
  /-- Every device is greater than every other. -/
  | greater

/-- The names of the ready-made orders. -/
def Ranking.names : List (String × Ranking) :=
  [("units", units), ("fewest_units", fewestUnits), ("clock", clock), ("group", group),
    ("name", name), ("equal", equal), ("greater", greater)]

/-- Compare two devices. -/
def Ranking.rank (r : Ranking) (a b : DeviceProfile) : Ordering :=
  match r with
  | units => compare a.computeUnits b.computeUnits
  | fewestUnits => compare b.computeUnits a.computeUnits
  | clock => compare a.clock b.clock
  | group => compare a.groupSize b.groupSize
  | name => compare a.name b.name
  | equal => .eq
  | greater => .gt

/-! ### Logging -/

/-- The state of logging. -/
structure Logging where
  started : Bool := false
  /-- Whether messages go anywhere. -/
  installed : Bool := false

/-- Start logging with the filter that is set, if any. Starting it again has no effect. -/
def Logging.start (l : Logging) (filter : Option String) : Logging :=
  if l.started then l else ⟨true, filter.isSome⟩

end KernelForge.Launch

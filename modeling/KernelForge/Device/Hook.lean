import KernelForge.Binary.Arithmetic
import KernelForge.Device.Simulator.State

/-!
# Hooks made of rules

A rule changes the arguments of a launch: it replaces the bytes of one argument, flips bits in it, or
computes `ys[i] = alpha * xs[i] + ys[i]` on arguments read as 32-bit floating-point numbers.
-/

namespace KernelForge.Device

/-- One change to the arguments of a launch. -/
inductive Rule
  | set (index : Nat) (bytes : List UInt8)
  | xor (index : Nat) (key : UInt8)
  | saxpy

/-- The bytes of an argument. -/
def LaunchArg.contents : LaunchArg → List UInt8
  | bytes value => value
  | buffer contents => contents

/-- Change the bytes of an argument. -/
def LaunchArg.map (f : List UInt8 → List UInt8) : LaunchArg → LaunchArg
  | bytes value => bytes (f value)
  | buffer contents => buffer (f contents)

/-- The first `count` sums `alpha * x + y`, as far as there are numbers; the rest of `ys` stays. -/
def scaleAddAll (alpha : Nat) : Nat → List Nat → List Nat → List Nat
  | count + 1, x :: xs, y :: ys =>
    Binary.scaleAdd Binary.single alpha x y :: scaleAddAll alpha count xs ys
  | _, _, ys => ys

/-- Compute `ys[i] = alpha * xs[i] + ys[i]` for `i` below `count`. Bytes past the last whole number
are dropped, and an `alpha` that is too short to hold a number counts as zero. -/
def saxpyBytes (count : Nat) (alpha xs ys : List UInt8) : List UInt8 :=
  let factor := (Bytes.allWords 4 alpha).headD 0
  (scaleAddAll factor count (Bytes.allWords 4 xs) (Bytes.allWords 4 ys)).flatMap (Bytes.ofNat 4)

/-- Apply a rule to the arguments of a launch over `count` work-items. An argument that is not there
is not changed. -/
def Rule.apply (count : Nat) (args : List LaunchArg) : Rule → List LaunchArg
  | set index bytes => args.modify index (·.map fun _ => bytes)
  | xor index key => args.modify index (·.map (·.map (· ^^^ key)))
  | saxpy =>
    match args with
    | [alpha, xs, ys] =>
      [alpha, xs, ys.map fun bytes => saxpyBytes count alpha.contents xs.contents bytes]
    | _ => args

/-- The hook that applies rules in order. -/
def Hook.ofRules (rules : List Rule) : Hook :=
  fun _ count args => rules.foldl (fun args rule => rule.apply count args) args

end KernelForge.Device

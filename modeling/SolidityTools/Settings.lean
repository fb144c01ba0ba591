set_option autoImplicit false

/-! # Settings

What a user can adjust: how text is laid out, which lint rules run and what they tolerate, and
the weights of the gas estimate. Numbers are 64-bit machine words. Every setting has a default.
-/

namespace SolidityTools

/-- How source text is laid out. -/
structure EditorSettings where
  /-- The columns that a tab stands for in leading white space. -/
  tabSize : UInt64
  /-- The spaces of one indentation level. -/
  indentWidth : UInt64
  /-- Whether trailing blanks are dropped. -/
  trimTrailing : Bool
deriving DecidableEq, Repr

/-- The default layout. -/
def EditorSettings.standard : EditorSettings := ⟨4, 4, true⟩

/-- What the lint rules look for. -/
structure LintSettings where
  /-- The codes of the rules that do not run. -/
  disabledRules : List String
  /-- How many leading lines are searched for the header. -/
  headerLines : UInt64
  /-- The numbers that are never reported. -/
  allowedNumbers : List String
deriving DecidableEq, Repr

def LintSettings.standard : LintSettings := ⟨[], 10, ["0", "1"]⟩

/-- Whether the rule with a code runs. -/
def LintSettings.isEnabled (settings : LintSettings) (code : String) : Bool :=
  !settings.disabledRules.contains code

/-- The weights of the gas estimate: rough costs of operations, not those of the machine. -/
structure GasWeights where
  /-- Calling a function that may change the state. -/
  base : UInt64
  /-- Calling a `view` or `pure` function. -/
  viewBase : UInt64
  /-- Writing a state variable. -/
  storageWrite : UInt64
  /-- Writing anything else. -/
  memoryWrite : UInt64
  /-- A loop. -/
  loop : UInt64
  /-- A loop without a literal bound, on top of the loop itself. -/
  unboundedLoop : UInt64
  /-- A call that hands control to another contract. -/
  externalCall : UInt64
  /-- An emitted event. -/
  event : UInt64
  /-- A created contract. -/
  creation : UInt64
deriving DecidableEq, Repr

def GasWeights.standard : GasWeights :=
  ⟨21000, 2100, 20000, 100, 5000, 10000, 10000, 1500, 32000⟩

structure Settings where
  editor : EditorSettings
  lint : LintSettings
  gas : GasWeights
deriving DecidableEq, Repr

def Settings.standard : Settings := ⟨.standard, .standard, .standard⟩

end SolidityTools

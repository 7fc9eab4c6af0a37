import NullabilityCasts.ClassTable.Mismatch
import NullabilityCasts.Text.Blank

/-!
# Settings

Options of a run and how environment variables choose them.
-/

set_option autoImplicit false

namespace NullabilityCasts

/-- The values of the environment variables that choose the options, none for one not set. -/
structure Environment where
  lossy : Option String := none
  bootstrap : Option String := none
  serial : Option String := none
  verbose : Option String := none

namespace Environment

def ofVariables (value : String → Option String) : Environment :=
  ⟨value "XL_LOSSY", value "XL_BOOTSTRAP", value "XL_SERIAL", value "XL_VERBOSE"⟩

/-- A switch is on unless its value is blank, zero or the word false. -/
def isOn (value : String) : Bool :=
  let trimmed := Text.trim value
  !(["", "0", "false", "FALSE", "False"].contains trimmed)

def switch (value : Option String) : Bool := value.any isOn

def isBootstrap (env : Environment) : Bool := env.bootstrap.isSome

def isLossy (env : Environment) : Bool := env.isBootstrap || switch env.lossy

def isSerial (env : Environment) : Bool := switch env.serial

def isVerbose (env : Environment) : Bool := switch env.verbose

def strictness (env : Environment) : Strictness := if env.isLossy then .lossy else .strict

end Environment

structure RunOptions where
  parallel : Bool := true
  strictness : Strictness := .strict
  verbose : Bool := false
  deriving DecidableEq, Repr

namespace RunOptions

def ofEnvironment (env : Environment) : RunOptions :=
  ⟨!env.isSerial, env.strictness, env.isVerbose⟩

def serial (options : RunOptions) : RunOptions := { options with parallel := false }

end RunOptions

end NullabilityCasts

/-!
# Configuration

What a region's schedule contains beside the messages at its boundary, and how regions are
scheduled. Schedules do not depend on whether regions are scheduled side by side.

## Main definitions

* `Config`: The choices, with their defaults.
* `ConfigError`: Why a configuration cannot be read.
* `ConfigError.message`: Its wording, as far as this library words it.
-/

namespace MessagePlan

/-- The choices for schedules of regions.  With `univariateOutbounds`, a boundary node with
    a single terminal inside a region sends a message into the region too. -/
structure Config where
  univariateOutbounds : Bool := true
  timeWraps : Bool := true
  taps : Bool := true
  parallel : Bool := false
deriving DecidableEq, Inhabited, Repr

/-- Why a configuration cannot be read: the file at a path cannot be, for a cause that whoever reads
    files words, or its text is not a configuration. -/
inductive ConfigError where
  | unreadable (path : String) (cause : String)
  | malformed
deriving DecidableEq, Repr

/-- The wording of a failure to read a configuration. -/
def ConfigError.message : ConfigError → String
  | .unreadable path cause => "Failed to read config '" ++ path ++ "': " ++ cause
  | .malformed => "Invalid config"

end MessagePlan

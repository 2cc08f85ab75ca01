import Cflat.CommandLine.Parse
import Cflat.Options.Basic
import Cflat.Text.Padding

/-!
# Options on the command line

Every warning and feature has a pair of switches, `-Wname` and `-Wno-name` or
`-Fname` and `-Fno-name`.  An option is on after parsing if its positive switch is
on, which it is from the start for a default, and its negative one is not.
-/

namespace Cflat.Options

open CommandLine (FlagSet Group GroupEntry DefinitionError)

/-- The switches of a warning. -/
def warningEntry (o : Options) (w : Warning) : GroupEntry where
  name := (o.warnings.info w).name
  lead := "W"
  usage := (o.warnings.info w).description
  enabled := some (o.warning w)
  disabled := some false

/-- The switches of a feature. -/
def featureEntry (o : Options) (f : Feature) : GroupEntry where
  name := (o.features.info f).name
  lead := "F"
  usage := (o.features.info f).description
  enabled := some (o.feature f)
  disabled := some false

/-- The switches of all warnings. -/
def warningGroup (o : Options) : Group :=
  ⟨"Warning Flags", "warning", "Available Warnings:", Warning.all.map o.warningEntry⟩

/-- The switches of all features. -/
def featureGroup (o : Options) : Group :=
  ⟨"Feature Flags", "feature", "Available Features:", Feature.all.map o.featureEntry⟩

/-- Define the switches of all options in a flag set. -/
def addSwitches (o : Options) (fs : FlagSet) : FlagSet × Except DefinitionError Unit :=
  match fs.addGroup o.warningGroup with
  | (fs, .ok ()) => fs.addGroup o.featureGroup
  | (fs, .error e) => (fs, .error e)

/-- What the pair of switches of an entry says. -/
def switchState (fs : FlagSet) (e : GroupEntry) : Bool :=
  fs.isOn e.onName && !fs.isOn e.offName

/-- The options that the switches of a flag set say. -/
def ofSwitches (o : Options) (fs : FlagSet) : Options :=
  { o with
    features := o.features.switched fun f => switchState fs (o.featureEntry f)
    warnings := o.warnings.switched fun w => switchState fs (o.warningEntry w) }

/-- The line of an entry in a table. -/
def stateLine (i : Info) : String :=
  "  - " ++ Text.padRight 20 i.name ++ ": " ++ (if i.enabled then "true" else "false") ++
    " (" ++ i.description ++ ")\n"

/-- The state of every feature. -/
def featureTable (o : Options) : String :=
  String.join (Feature.all.map fun f => stateLine (o.features.info f))

/-- The state of every warning. -/
def warningTable (o : Options) : String :=
  String.join (Warning.all.map fun w => stateLine (o.warnings.info w))

end Cflat.Options

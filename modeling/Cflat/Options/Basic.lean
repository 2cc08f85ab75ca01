/-!
# Options

The configuration of the compiler: the features and warnings with their names and
defaults, the host that the tools run on, and the sizes of the generated code.  The
single-flag form `-Wname`, `-Wno-name`, `-Fname`, `-Fno-name` changes it in place.
-/

namespace Cflat

/-- What is known of a feature or of a warning. -/
structure Info where
  name : String
  enabled : Bool
  description : String
  deriving DecidableEq, Repr

/-- The features or the warnings with what is known of each, and the way back from names.
`name` gives each its name, which never changes. -/
structure Switchboard {α : Type} (name : α → String) where
  info : α → Info
  /-- The entry with a name, if there is one. -/
  ofName? : String → Option α
  name_info : ∀ x, (info x).name = name x
  ofName?_eq_some_iff : ∀ s x, ofName? s = some x ↔ name x = s

namespace Switchboard

variable {α : Type} {name : α → String}

/-- Turn the entries on or off as `on` says. -/
def switched (b : Switchboard name) (on : α → Bool) : Switchboard name :=
  { b with info := fun x => { b.info x with enabled := on x } }

/-- Turn one entry on or off. -/
def set [DecidableEq α] (b : Switchboard name) (x : α) (on : Bool) : Switchboard name :=
  b.switched fun y => if y = x then on else (b.info y).enabled

end Switchboard

/-- What can be asked of the generated code. -/
inductive Feature
  | pic
  | gnuStack
  | verboseAsm
  deriving DecidableEq, Repr

namespace Feature

/-- Every feature. -/
def all : List Feature := [pic, gnuStack, verboseAsm]

/-- The name of a feature in a flag. -/
def name : Feature → String
  | pic => "pic"
  | gnuStack => "gnu-stack"
  | verboseAsm => "verbose-asm"

/-- What a feature does, for the user. -/
def description : Feature → String
  | pic => "Emit the __x86.get_pc_thunk.bx helper for position-independent code."
  | gnuStack => "Mark the object as not needing an executable stack."
  | verboseAsm => "Annotate the generated listing with comments."

/-- Whether a feature is on before any flag. -/
def onByDefault : Feature → Bool
  | gnuStack => true
  | _ => false

/-- The feature with a name. -/
def ofName? (s : String) : Option Feature :=
  all.find? (·.name = s)

/-- The features before any flag. -/
def board : Switchboard name where
  info f := ⟨f.name, f.onByDefault, f.description⟩
  ofName?
  name_info _ := rfl
  ofName?_eq_some_iff s f := by
    refine ⟨fun h => by simpa using List.find?_some h, ?_⟩
    rintro rfl
    cases f <;> rfl

end Feature

/-- What the user can be warned about. -/
inductive Warning
  | common
  | externUnused
  | extra
  deriving DecidableEq, Repr

namespace Warning

/-- Every warning. -/
def all : List Warning := [common, externUnused, extra]

/-- The name of a warning in a flag. -/
def name : Warning → String
  | common => "common"
  | externUnused => "extern-unused"
  | extra => "extra"

/-- What a warning is about, for the user. -/
def description : Warning → String
  | common => "Warn about variables left to the linker as common symbols."
  | externUnused => "Warn about extern variables no initializer takes the address of."
  | extra => "Enable extra miscellaneous warnings."

/-- Whether a warning is on before any flag. -/
def onByDefault : Warning → Bool
  | extra => true
  | _ => false

/-- The warning with a name. -/
def ofName? (s : String) : Option Warning :=
  all.find? (·.name = s)

/-- The warnings before any flag. -/
def board : Switchboard name where
  info w := ⟨w.name, w.onByDefault, w.description⟩
  ofName?
  name_info _ := rfl
  ofName?_eq_some_iff s w := by
    refine ⟨fun h => by simpa using List.find?_some h, ?_⟩
    rintro rfl
    cases w <;> rfl

end Warning

/-- The configuration of the compiler. -/
structure Options where
  features : Switchboard Feature.name := Feature.board
  warnings : Switchboard Warning.name := Warning.board
  /-- The operating system, architecture and name of the host. -/
  os : String := ""
  arch : String := ""
  host : String := ""
  /-- The natural width of the generated code in bytes. -/
  wordSize : Int64 := 4
  stackAlignment : Int64 := 4
  /-- The host's tools produce 64-bit objects unless told otherwise. -/
  m32 : Bool := false
  linkerArgs : List String := []

/-- Why a text is no flag. -/
inductive FlagError
  | unrecognized (flag : String)
  | unknownWarning (name : String)
  | unknownFeature (name : String)
  deriving DecidableEq, Repr

namespace FlagError

/-- The text of the error. -/
def message : FlagError → String
  | unrecognized flag => s!"unrecognized flag '{flag}'"
  | unknownWarning name => s!"unknown warning '{name}'"
  | unknownFeature name => s!"unknown feature '{name}'"

end FlagError

namespace Options

/-- Whether a feature is on. -/
def feature (o : Options) (f : Feature) : Bool :=
  (o.features.info f).enabled

/-- Whether a warning is on. -/
def warning (o : Options) (w : Warning) : Bool :=
  (o.warnings.info w).enabled

/-- Turn a feature on or off. -/
def setFeature (o : Options) (f : Feature) (on : Bool) : Options :=
  { o with features := o.features.set f on }

/-- Turn a warning on or off. -/
def setWarning (o : Options) (w : Warning) (on : Bool) : Options :=
  { o with warnings := o.warnings.set w on }

theorem feature_setFeature (o : Options) (f : Feature) (on : Bool) (g : Feature) :
    (o.setFeature f on).feature g = if g = f then on else o.feature g :=
  rfl

/-- Turn every warning on or off, one after the other. -/
def setAllWarnings (o : Options) (on : Bool) : Options :=
  Warning.all.foldl (fun o w => o.setWarning w on) o

/-- The name after an optional `no-`, and whether the switch turns it on. -/
def switchName (cs : List Char) : Bool × String :=
  match ['n', 'o', '-'].isPrefixOf? cs with
  | some rest => (false, String.ofList rest)
  | none => (true, String.ofList cs)

/-- Turn the warning with a name on or off, or all of them. -/
def applyWarning (o : Options) (on : Bool) (name : String) : Options × Except FlagError Unit :=
  if name = "all" then (o.setAllWarnings on, .ok ())
  else match o.warnings.ofName? name with
    | some w => (o.setWarning w on, .ok ())
    | none => (o, .error (.unknownWarning name))

/-- Turn the feature with a name on or off. -/
def applyFeature (o : Options) (on : Bool) (name : String) : Options × Except FlagError Unit :=
  match o.features.ofName? name with
  | some f => (o.setFeature f on, .ok ())
  | none => (o, .error (.unknownFeature name))

/-- Apply one flag.  One leading dash is optional. -/
def applyFlag (o : Options) (flag : String) : Options × Except FlagError Unit :=
  let cs := flag.toList
  match (['-'].isPrefixOf? cs).getD cs with
  | 'W' :: rest =>
    let (on, name) := switchName rest
    o.applyWarning on name
  | 'F' :: rest =>
    let (on, name) := switchName rest
    o.applyFeature on name
  | _ => (o, .error (.unrecognized flag))

/-- Apply flags in order, up to the first that is refused. -/
def applyFlags (o : Options) : List String → Options × Except FlagError Unit
  | [] => (o, .ok ())
  | flag :: rest =>
    match o.applyFlag flag with
    | (o, .ok ()) => o.applyFlags rest
    | (o, .error e) => (o, .error e)

end Options

end Cflat

import TemplateTree.Json.Display

/-!
# Parser options

The settings of a parser. Every class of options has three common settings, and the classes of the
two dialects have one more each. Settings are kept as they are given; only the nesting limit and the
implicit tag name are checked.
-/

set_option autoImplicit false

namespace TemplateTree

inductive OptionsClass where
  | base
  | haml
  | jade
  deriving DecidableEq, Inhabited, Repr

namespace OptionsClass

def name : OptionsClass → String
  | base => "BaseParserOptions"
  | haml => "HamlOptions"
  | jade => "JadeOptions"

def ofName? (s : String) : Option OptionsClass := [base, haml, jade].find? (·.name == s)

end OptionsClass

/-- A setting that a class does not have keeps its default and is not shown. -/
structure Options where
  optionsClass : OptionsClass
  maxNestingDepth : Value
  implicitTagName : Value
  interpolateFilters : Value
  conditionalComments : Value
  pipedText : Value
  deriving Repr

inductive OptionsError where
  | unknownSetting (name : Str)
  /-- The name already stands for something that is given beside the settings. -/
  | takenName (name : Str)
  | depthNotNumber
  | depthNotPositive (depth : Value)
  | noTagName
  deriving Repr

namespace OptionsError

/-- The text of an error about a value; a wrong name and a setting of a wrong type have none. -/
def message? : OptionsError → Option String
  | depthNotPositive depth => some ("max_nesting_depth must be positive, got " ++ depth.display)
  | noTagName => some "implicit_tag_name must be a non-empty string"
  | unknownSetting _ | takenName _ | depthNotNumber => none

end OptionsError

namespace Options

def default (optionsClass : OptionsClass) : Options :=
  ⟨optionsClass, .int 256, .str "div", .bool false, .bool true, .bool true⟩

def commonSettings (o : Options) : Value.Fields :=
  [("max_nesting_depth", o.maxNestingDepth), ("implicit_tag_name", o.implicitTagName),
    ("interpolate_filters", o.interpolateFilters)]

/-- The settings that only the class has. -/
def ownSettings (o : Options) : Value.Fields :=
  match o.optionsClass with
  | .base => []
  | .haml => [("allow_conditional_comments", o.conditionalComments)]
  | .jade => [("allow_piped_text", o.pipedText)]

/-- The settings that the class has, by name. -/
def settings (o : Options) : Value.Fields := o.commonSettings ++ o.ownSettings

def hasSetting (optionsClass : OptionsClass) (name : Str) : Bool :=
  (default optionsClass).settings.any (·.1 == name)

def set (o : Options) (name : Str) (v : Value) : Except OptionsError Options :=
  if !hasSetting o.optionsClass name then .error (.unknownSetting name)
  else if name == "max_nesting_depth" then .ok { o with maxNestingDepth := v }
  else if name == "implicit_tag_name" then .ok { o with implicitTagName := v }
  else if name == "interpolate_filters" then .ok { o with interpolateFilters := v }
  else if name == "allow_conditional_comments" then .ok { o with conditionalComments := v }
  else .ok { o with pipedText := v }

/-- The limit has to be a positive number and the tag name has to be something. -/
def validate (o : Options) : Except OptionsError Options :=
  match o.maxNestingDepth.toInt? with
  | none => .error .depthNotNumber
  | some depth =>
    if depth ≤ 0 then .error (.depthNotPositive o.maxNestingDepth)
    else if !o.implicitTagName.isTrue then .error .noTagName
    else .ok o

def update (o : Options) (given : Value.Fields) : Except OptionsError Options := do
  (← given.foldlM (fun o (name, v) => o.set name v) o).validate

def make (optionsClass : OptionsClass) (given : Value.Fields) : Except OptionsError Options :=
  (default optionsClass).update given

/-- The given names that are no settings of a class. -/
def unknownNames (optionsClass : OptionsClass) (given : Value.Fields) : List Str :=
  (given.filter fun (name, _) => !hasSetting optionsClass name).map (·.1)

def className : Str := "options_class"

/-- The options of a class from the given settings that it has, and the names that are passed
over. -/
def ofKnown (optionsClass : OptionsClass) (given : Value.Fields) :
    List Str × Except OptionsError Options :=
  if given.any (·.1 == className) then ([], .error (.takenName className))
  else
    (unknownNames optionsClass given,
      make optionsClass (given.filter fun (name, _) => hasSetting optionsClass name))

/-- Options are equal when they are of one class and all its settings are. -/
def equal (o p : Options) : Bool :=
  o.optionsClass == p.optionsClass && Value.equalFields o.settings p.settings

end Options

end TemplateTree

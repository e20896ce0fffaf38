import DesignTokens.Settings.Basic

/-!
# Settings from data

The settings are read section by section. A section may be an object or a list of
pairs; members that no section knows are ignored, but every name must be text.
-/

namespace DesignTokens.Settings

/-- Settings that cannot be used, and why. -/
def invalid {α : Type} (cause : SettingsCause) : Except Error α :=
  .error (.problem (.invalidSettings cause) none)

def invalidFault {α : Type} (fault : ShapeFault) : Except Error α :=
  invalid (.fault fault)

def checked {α : Type} (model : String) (found : Schema.Checked α) : Except Error α :=
  match found.toExcept model with
  | .ok value => .ok value
  | .error report => invalid (.report report)

/-- A key and its value: two items, the two characters of a text or the two keys of a
mapping. -/
def pairOf : Data → Except Error (Scalar × Data)
  | .list [.scalar key, value] => .ok (key, value)
  | .list [_, _] => invalidFault .wrongKind
  | .list _ => invalidFault .notPairs
  | .mapping [(key, _), (value, _)] => .ok (key, .scalar value)
  | .mapping _ => invalidFault .notPairs
  | .scalar (.text s) =>
    match s.toList with
    | [key, value] =>
      .ok (.text (String.singleton key), .scalar (.text (String.singleton value)))
    | _ => invalidFault .notPairs
  | .scalar (.octets [key, value]) => .ok (.int key.toNat, .scalar (.int value.toNat))
  | .scalar (.octets _) => invalidFault .notPairs
  | .scalar _ => invalidFault .wrongKind

/-- The entries of a mapping or of a list of pairs. Data that are not set have no
entries. -/
def entriesOf (data : Data) : Except Error (List (Scalar × Data)) :=
  if data.isSet then
    match data with
    | .mapping entries => .ok entries
    | .list items => Entries.ofList <$> items.mapM pairOf
    | .scalar (.text _) => invalidFault .notPairs
    | .scalar _ => invalidFault .wrongKind
  else
    .ok []

/-- Entries whose keys are all text. -/
def fieldsOf (entries : List (Scalar × Data)) : Except Error Schema.Fields :=
  entries.mapM fun (key, value) =>
    match key with
    | .text name => .ok (name, value)
    | _ => invalidFault .wrongKind

/-- A mapping as fields; other data cannot stand for fields. -/
def mappingFields (data : Data) : Except Error Schema.Fields :=
  match data with
  | .mapping entries => fieldsOf entries
  | _ => invalidFault .wrongKind

/-- A section of the settings; one that is left out is not set. -/
def sectionOf (entries : List (Scalar × Data)) (name : String) : Data :=
  (Data.field? entries name).getD (.scalar .null)

def readBuild (environment : Environment) (data : Data) : Except Error BuildSettings := do
  let fields ← fieldsOf (← entriesOf data)
  checked "BuildSettings" (BuildSettings.mk <$>
    Schema.optional fields "log_level" environment.logLevel (Schema.oneOf LogLevel.table) <*>
    Schema.optional fields "use_dtcg" true Schema.flag <*>
    Schema.optional fields "parallel_builds" true Schema.flag)

def readBreakpoint (fields : Schema.Fields) : Except Error Breakpoint :=
  match Breakpoint.ofFields fields with
  | .error (.report report) => invalid (.report report)
  | result => result

/-- A breakpoint table: widths by name, or a list of objects. -/
def readBreakpoints (data : Data) : Except Error (List Breakpoint) :=
  match data with
  | .mapping entries => entries.mapM fun (name, width) =>
      readBreakpoint [("name", .scalar name), ("min_width", width)]
  | .list items => items.mapM fun item => do readBreakpoint (← mappingFields item)
  | .scalar (.text "") | .scalar (.octets []) => .ok []
  | .scalar _ => invalidFault .wrongKind

def readCss (data : Data) : Except Error CssSettings := do
  let entries ← entriesOf data
  let breakpoints ← match Data.field? entries "breakpoints" with
    | some table => readBreakpoints table
    | none => pure Breakpoint.standard
  let fields ← fieldsOf entries
  let standard : CssSettings := {}
  checked "CssSettings" ((fun buildPath selector lead outputReferences strategy elements =>
      CssSettings.mk buildPath selector lead outputReferences strategy breakpoints elements) <$>
    Schema.optional fields "build_path" standard.buildPath Schema.text <*>
    Schema.optional fields "selector" standard.selector Schema.text <*>
    Schema.optional fields "prefix" standard.lead Schema.textOrNull <*>
    Schema.optional fields "output_references" standard.outputReferences Schema.flag <*>
    Schema.optional fields "color_mode_strategy" standard.strategy
      (Schema.oneOf Stylesheet.ColorStrategy.table) <*>
    Schema.optional fields "semantic_elements" standard.elements Schema.flag)

def readFigma (data : Data) : Except Error FigmaSettings := do
  let fields ← if data.isSet then mappingFields data else pure []
  let standard : FigmaSettings := {}
  checked "FigmaSettings" (FigmaSettings.mk <$>
    Schema.optional fields "enabled" standard.enabled Schema.flag <*>
    Schema.optional fields "build_path" standard.buildPath Schema.text)

/-- A list of patterns; one pattern may stand for itself. -/
def patterns (data : Data) : Schema.Checked (List String) :=
  match data with
  | .scalar (.text pattern) => .valid [pattern]
  | data => Schema.sequence Schema.text data

/-- A tier; without a name of its own it has the name of its key. -/
def readTier (key : Scalar) (data : Data) : Except Error Tier := do
  let entries ← entriesOf data
  let named := match Data.field? entries "name" with
    | some _ => entries
    | none => entries ++ [(.text "name", .scalar key)]
  let fields ← fieldsOf named
  checked "TierConfig" (Tier.mk <$>
    Schema.required fields "name" Schema.text <*>
    Schema.optional fields "description" "" Schema.text <*>
    Schema.optional fields "include" [] patterns <*>
    Schema.optional fields "source" [] patterns <*>
    Schema.optional fields "modes" [] (Schema.mapping (Schema.mapping Schema.text)))

/-- The name under which a tier is built. -/
def tierKey (key : Scalar) : Schema.Checked String :=
  (((Schema.text (.scalar key)).within (.field "[key]")).within (Schema.keyPlace key)).within
    (.field "tiers")

def readTiers (data : Data) : Except Error (List (String × Tier)) :=
  if data.isSet then
    match data with
    | .mapping entries => do
      let tiers ← entries.mapM fun (key, tier) => do return (key, ← readTier key tier)
      let named ← checked "BuildConfig" (.all (tiers.map fun (key, tier) =>
        .mapValid (fun name => (name, tier)) (tierKey key)))
      return Entries.ofList named
    | _ => .error (.shape .noMembers)
  else
    .ok standardTiers

/-- Settings from data in a given environment. -/
def ofData (environment : Environment) (data : Data) : Except Error Settings :=
  match data with
  | .mapping entries => do
    let build ← readBuild environment (sectionOf entries "build")
    let css ← readCss (sectionOf entries "css")
    let figma ← readFigma (sectionOf entries "figma")
    let tiers ← readTiers (sectionOf entries "tiers")
    return ⟨build, css, figma, tiers, environment⟩
  | _ => .error (.shape .noMembers)

/-- Settings from data in the environment that a word names. -/
def read (word : Option String) (data : Data) : Traced Settings := do
  let environment ← Environment.ofWord word
  ofData environment data

end DesignTokens.Settings

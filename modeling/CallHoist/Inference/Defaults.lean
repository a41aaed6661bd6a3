import CallHoist.Inference.Basic

/-!
# The default rules

Builtin functions, with or without a leading scope operator, and constructors come first; the rules for all names that
end in `edf` or `bsdf` come last. Each rule has its pattern both as it is written and as it is meant, and the one is
what is read of the other (`read_types`, `read_vetoes`).
-/

namespace CallHoist.Engine

/-- The pattern of a call: that of the name, as written and as meant, with anything between parentheses behind it. -/
def callOf (source : Text) (name : List Pattern) : Regex :=
  ⟨source ++ "\\(.*\\)".toList, ⟨false, false⟩, .catAll (name ++ [.single '(', .anything, .single ')'])⟩

/-- The pattern of a call with or without a leading scope operator. -/
def builtinOf (source : Text) (name : List Pattern) : Regex :=
  callOf ("(::)?".toList ++ source) (.optional (.group (.catAll (Pattern.literal "::".toList))) :: name)

/-- The pattern of a call of a builtin function. -/
def builtin (name : String) : Regex :=
  builtinOf name.toList (Pattern.literal name.toList)

/-- The pattern of a call of a constructor. -/
def constructed (name : String) : Regex :=
  callOf name.toList (Pattern.literal name.toList)

/-- The pattern of a call of the cosine or of the sine. -/
def cosineOrSine : Regex :=
  builtinOf "math::(cos|sin)".toList (Pattern.literal "math::".toList ++ [.group (.altAll
    [.catAll (Pattern.literal "cos".toList), .catAll (Pattern.literal "sin".toList)])])

/-- The pattern of a call of a name with a given end. -/
def ending (name : String) : Regex :=
  callOf (".*".toList ++ name.toList) (.anything :: Pattern.literal name.toList)

/-- The pattern of a call with a given text somewhere in front of the parentheses. -/
def containing (name : String) : Regex :=
  callOf (".*".toList ++ name.toList ++ ".*".toList) (.anything :: Pattern.literal name.toList ++ [.anything])

/-- The pattern of a call of an annotation. -/
def annotation : Regex :=
  builtinOf "anno::.*".toList (Pattern.literal "anno::".toList ++ [.anything])

/-- The patterns of calls with their types. -/
def defaultTypes : List (Regex × String) :=
  [(cosineOrSine, "float"),
    (builtin "state::texture_coordinate", "float3"),
    (builtin "state::texture_tangent_u", "float3"),
    (builtin "state::texture_tangent_v", "float3"),
    (builtin "base::texture_coordinate_info", "::base::texture_coordinate_info"),
    (builtin "base::anisotropy_conversion", "::base::anisotropy_return"),
    (builtin "state::normal", "float3"),
    (builtin "df::diffuse_edf", "edf"),
    (builtin "math::luminance", "float"),
    (builtin "base::gloss_to_rough", "float"),
    (builtin "df::light_profile_maximum", "float"),
    (builtin "texture_isvalid", "bool"),
    (builtin "meters_per_scene_unit", "float"),
    (builtin "base::transform_coordinate", "::base::texture_coordinate_info"),
    (builtin "base::file_texture", "::base::texture_return"),
    (builtin "nvidia::core_definitions::blend_colors", "::base::texture_return"),
    (constructed "int", "int"),
    (constructed "color", "color"),
    (constructed "float", "float"),
    (constructed "float2", "float2"),
    (constructed "float3", "float3"),
    (constructed "float4", "float4"),
    (constructed "float3x3", "float3x3"),
    (constructed "float4x4", "float4x4"),
    (constructed "texture_2d", "texture_2d"),
    (ending "edf", "edf"),
    (ending "bsdf", "bsdf")]

/-- Names of rules with the patterns of the calls that they veto. -/
def defaultVetoes : List (String × Regex) :=
  [("anno", annotation),
    ("contribution", constructed "contribution"),
    ("annotations", containing "annotations"),
    ("ui_position", constructed "ui_position"),
    ("type_of_material", constructed "type_of_material"),
    ("typical_object_size", constructed "typical_object_size"),
    ("suitable_as_light", constructed "suitable_as_light"),
    ("abs", constructed "abs"),
    ("log", constructed "log")]

/-- The engine of the default rules. -/
def defaults : Engine :=
  ⟨defaultTypes.map fun (r, t) => ⟨r, t.toList⟩, defaultVetoes.map fun (n, r) => ⟨n.toList, r⟩⟩

theorem read_types : ∀ r ∈ defaultTypes, (Regex.read r.1.source).toOption = some r.1 := by
  decide +kernel

theorem read_vetoes : ∀ r ∈ defaultVetoes, (Regex.read r.2.source).toOption = some r.2 := by
  decide +kernel

end CallHoist.Engine

import RegexKit.Json
import RegexKit.Optimizer.Options

/-! The JSON form of options: an object in which any switch may be missing, or the word
`none` for all rules off. Unknown members are ignored. -/

namespace RegexKit.Optimizer.Options

def ofJson? : Json → Option Options
  | .str "none" => some none
  | j@(.obj _) => do
    some {
      quantifierFusion := ← j.getD? "quantifier_fusion" true Json.bool?
      removeDegenerateQuantifiers := ← j.getD? "remove_degenerate_quantifiers" true Json.bool?
      normalizeClassRanges := ← j.getD? "normalize_class_ranges" true Json.bool?
      ungroup := ← j.getD? "ungroup" true Json.bool?
      iterationFactor := ← j.getD? "iteration_factor" 4 (Json.nat? Numeral.max64) }
  | _ => .none

def toJson (o : Options) : Json := .obj [
  ("quantifier_fusion", .bool o.quantifierFusion),
  ("remove_degenerate_quantifiers", .bool o.removeDegenerateQuantifiers),
  ("normalize_class_ranges", .bool o.normalizeClassRanges),
  ("ungroup", .bool o.ungroup),
  ("iteration_factor", .nat o.iterationFactor)]

theorem ofJson?_toJson {o : Options} (h : o.iterationFactor ≤ Numeral.max64) :
    ofJson? o.toJson = some o := by
  simp [ofJson?, toJson, Json.getD?, List.lookup_cons, h]

end RegexKit.Optimizer.Options

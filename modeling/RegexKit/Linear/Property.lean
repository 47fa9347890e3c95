/-! The property names that the engine knows. Names are compared without regard to
case, underscores and a leading `is`. A name alone is a general category, a script or a
property of its own; a category or a script may also be given as a value. -/

namespace RegexKit.Linear.Property

/-- General categories by their short and long names. -/
def categories : List String := [
    "any", "assigned", "ascii",
    "l", "letter", "lc", "casedletter", "lu", "uppercaseletter", "ll", "lowercaseletter",
    "lt", "titlecaseletter", "lm", "modifierletter", "lo", "otherletter",
    "m", "mark", "combiningmark", "mn", "nonspacingmark", "mc", "spacingmark",
    "me", "enclosingmark",
    "n", "number", "nd", "decimalnumber", "digit", "nl", "letternumber", "no", "othernumber",
    "p", "punctuation", "punct", "pc", "connectorpunctuation", "pd", "dashpunctuation",
    "ps", "openpunctuation", "pe", "closepunctuation", "pi", "initialpunctuation",
    "pf", "finalpunctuation", "po", "otherpunctuation",
    "s", "symbol", "sm", "mathsymbol", "sc", "currencysymbol", "sk", "modifiersymbol",
    "so", "othersymbol",
    "z", "separator", "zs", "spaceseparator", "zl", "lineseparator",
    "zp", "paragraphseparator",
    "c", "other", "cc", "control", "cntrl", "cf", "format", "co", "privateuse",
    "cn", "unassigned"]

/-- Scripts by their long names and their codes. -/
def scripts : List String := [
    "adlam", "adlm", "aghb", "ahom", "anatolianhieroglyphs", "arab", "arabic", "armenian", "armi",
    "armn", "avestan", "avst", "bali", "balinese", "bamu", "bamum", "bass", "bassavah", "batak",
    "batk", "beng", "bengali", "berf", "beriaerfe", "bhaiksuki", "bhks", "bopo", "bopomofo", "brah",
    "brahmi", "brai", "braille", "bugi", "buginese", "buhd", "buhid", "cakm", "canadianaboriginal",
    "cans", "cari", "carian", "caucasianalbanian", "chakma", "cham", "cher", "cherokee",
    "chorasmian", "chrs", "common", "copt", "coptic", "cpmn", "cprt", "cuneiform", "cypriot",
    "cyprominoan", "cyrillic", "cyrl", "deseret", "deva", "devanagari", "diak", "divesakuru",
    "dogr", "dogra", "dsrt", "dupl", "duployan", "egyp", "egyptianhieroglyphs", "elba", "elbasan",
    "elym", "elymaic", "ethi", "ethiopic", "gara", "garay", "geor", "georgian", "glag",
    "glagolitic", "gong", "gonm", "goth", "gothic", "gran", "grantha", "greek", "grek", "gujarati",
    "gujr", "gukh", "gunjalagondi", "gurmukhi", "guru", "gurungkhema", "han", "hang", "hangul",
    "hani", "hanifirohingya", "hano", "hanunoo", "hatr", "hatran", "hebr", "hebrew", "hira",
    "hiragana", "hluw", "hmng", "hmnp", "hung", "imperialaramaic", "inherited",
    "inscriptionalpahlavi", "inscriptionalparthian", "ital", "java", "javanese", "kaithi", "kali",
    "kana", "kannada", "katakana", "kawi", "kayahli", "khar", "kharoshthi", "khitansmallscript",
    "khmer", "khmr", "khoj", "khojki", "khudawadi", "kiratrai", "kits", "knda", "krai", "kthi",
    "lana", "lao", "laoo", "latin", "latn", "lepc", "lepcha", "limb", "limbu", "lina", "linb",
    "lineara", "linearb", "lisu", "lyci", "lycian", "lydi", "lydian", "mahajani", "mahj", "maka",
    "makasar", "malayalam", "mand", "mandaic", "mani", "manichaean", "marc", "marchen",
    "masaramgondi", "medefaidrin", "medf", "meeteimayek", "mend", "mendekikakui", "merc", "mero",
    "meroiticcursive", "meroitichieroglyphs", "miao", "mlym", "modi", "mong", "mongolian", "mro",
    "mroo", "mtei", "mult", "multani", "myanmar", "mymr", "nabataean", "nagm", "nagmundari", "nand",
    "nandinagari", "narb", "nbat", "newa", "newtailue", "nko", "nkoo", "nshu", "nushu",
    "nyiakengpuachuehmong", "ogam", "ogham", "olchiki", "olck", "oldhungarian", "olditalic",
    "oldnortharabian", "oldpermic", "oldpersian", "oldsogdian", "oldsoutharabian", "oldturkic",
    "olduyghur", "olonal", "onao", "oriya", "orkh", "orya", "osage", "osge", "osma", "osmanya",
    "ougr", "pahawhhmong", "palm", "palmyrene", "pauc", "paucinhau", "perm", "phag", "phagspa",
    "phli", "phlp", "phnx", "phoenician", "plrd", "prti", "psalterpahlavi", "qaac", "qaai",
    "rejang", "rjng", "rohg", "runic", "runr", "samaritan", "samr", "sarb", "saur", "saurashtra",
    "sgnw", "sharada", "shavian", "shaw", "shrd", "sidd", "siddham", "sidetic", "sidt",
    "signwriting", "sind", "sinh", "sinhala", "sogd", "sogdian", "sogo", "sora", "sorasompeng",
    "soyo", "soyombo", "sund", "sundanese", "sunu", "sunuwar", "sylo", "sylotinagri", "syrc",
    "syriac", "tagalog", "tagb", "tagbanwa", "taile", "taitham", "taiviet", "taiyo", "takr",
    "takri", "tale", "talu", "tamil", "taml", "tang", "tangsa", "tangut", "tavt", "tayo", "telu",
    "telugu", "tfng", "tglg", "thaa", "thaana", "thai", "tibetan", "tibt", "tifinagh", "tirh",
    "tirhuta", "tnsa", "todhri", "todr", "tolongsiki", "tols", "toto", "tulutigalari", "tutg",
    "ugar", "ugaritic", "vai", "vaii", "vith", "vithkuqi", "wancho", "wara", "warangciti", "wcho",
    "xpeo", "xsux", "yezi", "yezidi", "yi", "yiii", "zanabazarsquare", "zanb", "zinh", "zyyy"]

/-- Properties that a character has or has not. -/
def binary : List String := [
    "alphabetic", "alpha", "asciihexdigit", "ahex", "bidicontrol", "bidic", "cased",
    "caseignorable", "ci", "changeswhencasefolded", "cwcf", "changeswhencasemapped", "cwcm",
    "changeswhenlowercased", "cwl", "changeswhentitlecased", "cwt", "changeswhenuppercased",
    "cwu", "dash", "defaultignorablecodepoint", "di", "deprecated", "dep", "diacritic", "dia",
    "emoji", "emojicomponent", "ecomp", "emojimodifier", "emod", "emojimodifierbase", "ebase",
    "emojipresentation", "epres", "extendedpictographic", "extpict", "extender", "ext",
    "graphemebase", "grbase", "graphemeextend", "grext", "hexdigit", "hex", "idcontinue",
    "idc", "idstart", "ids", "ideographic", "ideo", "idsbinaryoperator", "idsb",
    "idstrinaryoperator", "idst", "joincontrol", "joinc", "logicalorderexception", "loe",
    "lowercase", "lower", "math", "noncharactercodepoint", "nchar", "patternsyntax", "patsyn",
    "patternwhitespace", "patws", "prependedconcatenationmark", "pcm", "quotationmark",
    "qmark", "radical", "regionalindicator", "ri", "sentenceterminal", "sterm",
    "softdotted", "sd", "terminalpunctuation", "term", "unifiedideograph", "uideo",
    "uppercase", "upper", "variationselector", "vs", "whitespace", "space", "wspace",
    "xidcontinue", "xidc", "xidstart", "xids"]

/-- A name in lower case without underscores and without a leading `is`. -/
def normalize (name : List Char) : String :=
  let letters := (name.filter (· != '_')).map Char.toLower
  String.ofList <|
    match letters with
    | 'i' :: 's' :: rest => if rest = [] ∨ rest = ['c'] then letters else rest
    | _ => letters

/-- The host knows the property: one name, or a category or script as a value. -/
def isKnown (name : List Char) : Bool :=
  match name.span (· != '=') with
  | (alone, []) => [categories, scripts, binary].any (·.contains (normalize alone))
  | (key, _ :: value) =>
    if ["gc", "generalcategory"].contains (normalize key) then
      categories.contains (normalize value)
    else if ["sc", "script", "scx", "scriptextensions"].contains (normalize key) then
      scripts.contains (normalize value)
    else false

end RegexKit.Linear.Property

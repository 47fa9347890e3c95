import RegexKit.Node.Measure

/-! The text of a tree. Parentheses are added only where plain juxtaposition would read
differently: around a choice within a sequence, around the operand of a quantifier that is
no single atom, and around an escape that ends in digits when a digit follows. `text`
prints any tree; `render` refuses a tree with a repetition whose bounds are out of
order. -/

namespace RegexKit

/-- A repetition whose lower bound is above the upper one. -/
structure BoundsError where
  min : Nat
  max : Nat
  deriving DecidableEq, Repr

/-! ### Parts of the text -/

/-- The text that opens a group. -/
def GroupKind.opening : GroupKind → Text
  | capturing _ none => ['(']
  | capturing _ (some name) => ['(', '?', '<'] ++ name ++ ['>']
  | nonCapturing => ['(', '?', ':']
  | lookahead => ['(', '?', '=']
  | negativeLookahead => ['(', '?', '!']
  | lookbehind => ['(', '?', '<', '=']
  | negativeLookbehind => ['(', '?', '<', '!']

/-- The digits of a number, or the name in angle brackets after `k`. -/
def RefTarget.text : RefTarget → Text
  | number n => Numeral.decimal n
  | name t => ['k', '<'] ++ t ++ ['>']

def AssertionKind.text : AssertionKind → Text
  | start => ['^']
  | finish => ['$']
  | wordBoundary => ['\\', 'b']
  | nonWordBoundary => ['\\', 'B']

namespace Node

/-- A non-capturing group around a text. -/
def wrap (t : Text) : Text := ['(', '?', ':'] ++ t ++ [')']

/-- A range within a class. -/
def rangeText (low high : PatternChar) : Text :=
  low.text .inClass ++ '-' :: high.text .inClass

/-- The bounds of a quantifier in their shortest form. -/
def boundsText : Nat → Option Nat → Text
  | 0, none => ['*']
  | 1, none => ['+']
  | 0, some 1 => ['?']
  | min, none => '\x7b' :: Numeral.decimal min ++ [',', '\x7d']
  | min, some max =>
    if min = max then '\x7b' :: Numeral.decimal min ++ ['\x7d']
    else '\x7b' :: Numeral.decimal min ++ ',' :: Numeral.decimal max ++ ['\x7d']

/-- A quantifier, with a question mark when it is lazy. -/
def quantifierText (min : Nat) (max : Option Nat) (greedy : Bool) : Text :=
  boundsText min max ++ if greedy then [] else ['?']

/-! ### Where text would run together -/

mutual

/-- The text is empty: an alternative of nothing but such nodes. -/
def printsNothing : Node → Bool
  | alternative es => allPrintNothing es
  | _ => false

def allPrintNothing : List Node → Bool
  | [] => true
  | n :: ns => printsNothing n && allPrintNothing ns

end

mutual

/-- The text ends in an escape that would take in a digit after it. -/
def endsOpen : Node → Bool
  | backreference (.number _) _ => true
  | char c => c.kind == .octal
  | alternative es => lastEndsOpen es
  | _ => false

/-- The last node of the list that prints anything ends so. -/
def lastEndsOpen : List Node → Bool
  | [] => false
  | n :: ns => if allPrintNothing ns then endsOpen n else lastEndsOpen ns

end

/-- A part of a sequence: its text, and whether it takes in a digit after it. -/
structure Piece where
  text : Text
  endsOpen : Bool
  deriving DecidableEq, Repr

/-- The first character of a concatenation is a digit. -/
def startWithDigit (ts : List Text) : Bool := (ts.findSome? List.head?).any Char.isDigit

/-- The pieces of a sequence side by side, an open one wrapped when a digit follows. -/
def joinSequence : List Piece → Text
  | [] => []
  | p :: ps =>
    (if p.endsOpen && startWithDigit (ps.map Piece.text) then wrap p.text else p.text) ++
      joinSequence ps

/-- A member of a class: its text, and another spelling for when it would take in a digit
after it. -/
structure MemberPiece where
  text : Text
  respelled : Option Text
  deriving DecidableEq, Repr

/-- An octal escape spelled by its code point. -/
def respellOctal? (c : PatternChar) : Option PatternChar :=
  if c.kind = .octal then c.codePoint?.map .ofCodePoint else none

/-- The members of a class side by side, an octal escape respelled when a digit follows. -/
def joinMembers : List MemberPiece → Text
  | [] => []
  | p :: ps =>
    (match p.respelled with
      | some t => if startWithDigit (ps.map MemberPiece.text) then t else p.text
      | none => p.text) ++ joinMembers ps

/-! ### Trees -/

def isChoice : Node → Bool
  | disjunction _ => true
  | _ => false

/-- Nodes that a quantifier follows directly. -/
def isAtom : Node → Bool
  | char _ | charClass _ _ | group _ _ | backreference _ _ => true
  | _ => false

/-- A node of the given text as a part of a sequence. -/
def piece (n : Node) (t : Text) : Piece := ⟨if n.isChoice then wrap t else t, n.endsOpen⟩

/-- A node of the given text as a member of a class. -/
def memberPiece (n : Node) (t : Text) : MemberPiece :=
  match n with
  | char c => ⟨c.text .inClass, (respellOctal? c).map (·.text .inClass)⟩
  | classRange low high => ⟨rangeText low high, (respellOctal? high).map (rangeText low)⟩
  | _ => ⟨t, none⟩

mutual

/-- The text of a tree, a root without its delimiters and flags. -/
def text : Node → Text
  | regExp b _ => text b
  | alternative es => joinSequence (List.zipWith piece es (texts es))
  | disjunction bs => ['|'].intercalate (texts bs)
  | group kind e => kind.opening ++ text e ++ [')']
  | backreference target _ => '\\' :: target.text
  | assertion kind => kind.text
  | char c => c.text .pattern
  | charClass negated ms =>
    (if negated then ['[', '^'] else ['[']) ++
      joinMembers (List.zipWith memberPiece ms (texts ms)) ++ [']']
  | classRange low high => rangeText low high
  | repetition e min max greedy =>
    (if e.isAtom then text e else wrap (text e)) ++ quantifierText min max greedy

def texts : List Node → List Text
  | [] => []
  | n :: ns => text n :: texts ns

end

theorem texts_eq (ns : List Node) : texts ns = ns.map text := by
  induction ns with
  | nil => rfl
  | cons n ns ih => simp [texts, ih]

/-! ### Bounds -/

mutual

/-- The first repetition in preorder whose bounds are out of order. -/
def badBounds? : Node → Option BoundsError
  | regExp b _ => badBounds? b
  | alternative es => badBoundsList? es
  | disjunction bs => badBoundsList? bs
  | group _ e => badBounds? e
  | charClass _ ms => badBoundsList? ms
  | repetition e min (some max) _ => if max < min then some ⟨min, max⟩ else badBounds? e
  | repetition e _ none _ => badBounds? e
  | backreference _ _ | assertion _ | char _ | classRange _ _ => none

def badBoundsList? : List Node → Option BoundsError
  | [] => none
  | n :: ns => (badBounds? n).or (badBoundsList? ns)

end

/-! ### Printing -/

/-- The body of an empty pattern, which two slashes alone would not delimit. -/
def emptyBody : Text := ['(', '?', ':', ')']

/-- The text of a root without delimiters and flags. -/
def patternText (body : Node) : Text := if body.text = [] then emptyBody else body.text

/-- The full text: a root between slashes with its flags, any other node as it stands. -/
def fullText : Node → Text
  | regExp body flags => '/' :: patternText body ++ '/' :: flags.text
  | n => n.text

/-- The full text of a tree whose bounds are all in order. -/
def render (n : Node) : Except BoundsError Text :=
  match n.badBounds? with
  | some e => .error e
  | none => .ok n.fullText

/-- The text of a tree without delimiters and flags. -/
def pattern : Node → Text
  | regExp body _ => patternText body
  | n => n.text

end Node

end RegexKit

import BeanContainer.Settings.Reader
import BeanContainer.Text.Blank
import BeanContainer.Text.Letter

/-!
Regular expressions, as far as it takes to tell whether one can be used. They
are compiled to automata that know no tables of letters, so outside of byte mode
a pattern may neither fold case nor ask for the digits, blanks or words of all
scripts, and cannot look for the edges of words.

A pattern stands between braces, so no closing brace can stand in it and a
repetition with a count is never complete.
-/

namespace BeanContainer.Settings.Pattern

/-- Why a pattern is refused. -/
inductive Fault where
  /-- It is not written as it should be, or asks for a table. -/
  | malformed
  /-- It looks for the edge of a word among the letters of all scripts. -/
  | wordEdge
deriving DecidableEq, Repr

/-- What is wrong, in words. -/
def Fault.message : Fault → String
  | malformed => "error building NFA"
  | wordEdge =>
    "unsupported regex feature for DFAs: cannot build DFAs for regexes with Unicode word " ++
      "boundaries; switch to ASCII word boundaries, or heuristically enable Unicode word " ++
      "boundaries or use a different regex engine"

/-! ## Modes -/

/-- The switches of a pattern that decide what may stand in it. -/
structure Mode where
  /-- Characters are those of all scripts; otherwise they are bytes. -/
  unicode : Bool := true
  /-- Case does not count. -/
  foldsCase : Bool := false
  /-- White space and comments are left out. -/
  spaced : Bool := false
deriving DecidableEq, Repr

namespace Mode

/-- The mode with a flag on or off. The other flags have no say in what may stand where. -/
def set (m : Mode) (flag : Char) (on : Bool) : Mode :=
  if flag = 'u' then { m with unicode := on }
  else if flag = 'i' then { m with foldsCase := on }
  else if flag = 'x' then { m with spaced := on }
  else m

/-- What is left after white space and comments; a comment goes on to the end of its line. -/
def skipSpaced (inComment : Bool) : List Char → List Char
  | [] => []
  | c :: cs =>
    if inComment then skipSpaced (c ≠ '\n') cs
    else if Text.isWhiteSpace c then skipSpaced false cs
    else if c = '#' then skipSpaced true cs
    else c :: cs

/-- What is left after what the mode leaves out. -/
def skip (m : Mode) (cs : List Char) : List Char := if m.spaced then skipSpaced false cs else cs

end Mode

/-! ## Characters and what a backslash makes -/

/-- A character of a pattern. -/
structure Literal where
  char : Char
  /-- It was written as a byte of two hexadecimal digits. -/
  isByte : Bool := false

/-- Whether a character may stand in a pattern. A byte that is no ASCII would match what is no
text. -/
def Literal.allowed (l : Literal) (m : Mode) : Bool :=
  if m.unicode then !m.foldsCase else !l.isByte || l.char.toNat < 0x80

/-- Whether a character may stand in a class. In byte mode a class holds ASCII alone. -/
def Literal.allowedInClass (l : Literal) (m : Mode) : Bool :=
  if m.unicode then !m.foldsCase else l.char.toNat < 0x80

/-- Whether a set of ASCII characters with a name may stand in a pattern, or all that is not in
it. The sets that have a letter of their own are larger in Unicode and need a table there. -/
def allowsSet (m : Mode) (lettered negated : Bool) : Bool :=
  if m.unicode then !lettered && !m.foldsCase else !negated

/-- What a backslash and the characters after it stand for. -/
inductive Escaped where
  | literal (l : Literal)
  /-- The digits, the blanks or the characters of words. -/
  | set (negated : Bool)
  /-- The start or the end of the text. -/
  | textEdge
  /-- The edge of a word, or a place that is none. -/
  | wordEdge

/-- Hexadecimal digits after those already read. -/
def hexNumber (m : Mode) (read : Nat) : Nat → Reader Nat
  | 0, cs => some (read, cs)
  | n + 1, cs =>
    match m.skip cs with
    | [] => none
    | c :: rest => do hexNumber m (read * 16 + (← hexDigit? c)) n rest

/-- A character by its code point, of a number of hexadecimal digits. -/
def codePoint (m : Mode) (digits : Nat) (cs : List Char) : Option (Escaped × List Char) := do
  let (n, rest) ← hexNumber m 0 digits cs
  if n.isValidChar then return (.literal ⟨Char.ofNat n, digits = 2⟩, rest) else none

/-- What follows a backslash. Of ASCII only letters, digits and the two angles have a meaning or
none; anything else stands for itself. -/
def escape (m : Mode) : List Char → Option (Escaped × List Char)
  | [] => none
  | c :: cs =>
    if c = 'x' then codePoint m 2 cs
    else if c = 'u' then codePoint m 4 cs
    else if c = 'U' then codePoint m 8 cs
    else if "dsw".contains c then some (.set false, cs)
    else if "DSW".contains c then some (.set true, cs)
    else if "Az".contains c then some (.textEdge, cs)
    else if "bB<>".contains c then some (.wordEdge, cs)
    else if "aftnrv".contains c then some (.literal { char := c }, cs)
    else if c.isAlphanum || 0x80 ≤ c.toNat then none
    else some (.literal { char := c }, cs)

/-! ## Classes -/

/-- The names of the sets that may stand in a class. -/
def setNames : List String :=
  ["alnum", "alpha", "ascii", "blank", "cntrl", "digit", "graph", "lower", "print", "punct",
    "space", "upper", "word", "xdigit"]

/-- A set by its name, after the opening bracket: whether it is negated, and what is left. -/
def namedSet (cs : List Char) : Option (Bool × List Char) := do
  let (negated, cs) ← match cs with
    | ':' :: '^' :: rest => some (true, rest)
    | ':' :: rest => some (false, rest)
    | _ => none
  match cs.span fun c => c ≠ ':' with
  | (name, ':' :: ']' :: rest) =>
    if setNames.contains (String.ofList name) then return (negated, rest) else none
  | _ => none

/-- What is left after hyphens. There are no more of them than `fuel`. -/
def skipHyphens (m : Mode) : Nat → List Char → List Char
  | fuel + 1, '-' :: cs => skipHyphens m fuel (m.skip cs)
  | _, cs => cs

/-- What is left after the start of a class, its opening bracket apart. Hyphens stand for
themselves here, and so does a closing bracket that comes first. A negated class holds more than
ASCII, so there is none in byte mode. -/
def classStart (m : Mode) (cs : List Char) : Option (List Char) :=
  match m.skip cs with
  | '^' :: rest => if m.unicode then items (m.skip rest) else none
  | rest => items rest
where
  items (cs : List Char) : Option (List Char) :=
    match cs with
    | '-' :: _ => if m.unicode && m.foldsCase then none else some (skipHyphens m cs.length cs)
    | ']' :: rest => if m.unicode && m.foldsCase then none else some rest
    | cs => some cs

/-- One end of a range in a class, or a character alone. -/
def classCharacter (m : Mode) : List Char → Option (Escaped × List Char)
  | [] => none
  | '\\' :: cs => escape m cs
  | c :: cs => some (.literal { char := c }, cs)

/-- What is left after a range, a character or a set in a class. A hyphen before a closing bracket
or another hyphen makes no range. -/
def classItem (m : Mode) (cs : List Char) : Option (List Char) := do
  let (first, rest) ← classCharacter m cs
  let rest := m.skip rest
  let alone : Option (List Char) :=
    match first with
    | .literal l => if l.allowedInClass m then some rest else none
    | .set negated => if allowsSet m true negated then some rest else none
    | _ => none
  match rest with
  | '-' :: more =>
    match m.skip more with
    | ']' :: _ => alone
    | '-' :: _ => alone
    | more =>
      match first, ← classCharacter m more with
      | .literal l, (.literal h, rest) =>
        if l.char ≤ h.char && l.allowedInClass m && h.allowedInClass m then some rest else none
      | _, _ => none
  | _ => alone

/-- What is left after a class in which `depth` more classes are open; `fuel` bounds the number of
its parts. Classes may be cut with, taken from, and set apart from one another by signs that are
written twice. -/
def classRest (m : Mode) : Nat → Nat → List Char → Option (List Char)
  | 0, _, _ => none
  | fuel + 1, depth, cs =>
    match m.skip cs with
    | [] => none
    | '[' :: rest =>
      match namedSet rest with
      | some (negated, rest) =>
        if allowsSet m false negated then classRest m fuel depth rest else none
      | none => do classRest m fuel (depth + 1) (← classStart m rest)
    | ']' :: rest =>
      match depth with
      | 0 => some rest
      | depth + 1 => classRest m fuel depth rest
    | '&' :: '&' :: rest => classRest m fuel depth rest
    | '-' :: '-' :: rest => classRest m fuel depth rest
    | '~' :: '~' :: rest => classRest m fuel depth rest
    | cs => do classRest m fuel depth (← classItem m cs)

/-! ## Patterns -/

/-- What is known of a pattern while it is read. -/
structure State where
  mode : Mode := {}
  /-- The modes that come back when the open groups end, innermost first. -/
  outer : List Mode := []
  /-- The names that groups have. -/
  names : List (List Char) := []
  /-- Something stands before that may be repeated. -/
  repeatable : Bool := false
  /-- The pattern looks for the edge of a word among the letters of all scripts. -/
  seeksWordEdge : Bool := false

/-- The mode that flags make, whether there are any, and what follows them. `seen` holds those
already read; none may stand twice, and something follows the hyphen that turns flags off. -/
def flags (seen : List Char) (on : Bool) (m : Mode) : List Char → Option (Mode × Bool × List Char)
  | [] => none
  | c :: cs =>
    if c = ':' || c = ')' then
      if seen.head? = some '-' then none else some (m, !seen.isEmpty, c :: cs)
    else if seen.contains c || !"imsUuRx-".contains c then none
    else flags (c :: seen) (on && c ≠ '-') (m.set c on) cs

/-- Whether a character other than the first may stand in the name of a group. -/
def isGroupNameChar (c : Char) : Bool :=
  "_.[]".contains c || Text.isLetter c || Text.isNumeral c

/-- The name of a group up to its closing angle. -/
def groupName (cs : List Char) : Option (List Char × List Char) :=
  match cs.span fun c => c ≠ '>' with
  | (c :: name, _ :: rest) =>
    if (c = '_' || Text.isLetter c) && name.all isGroupNameChar then some (c :: name, rest)
    else none
  | _ => none

namespace State

/-- The state after the start of a group with a mode of its own. -/
def opened (s : State) (m : Mode) : State :=
  { s with mode := m, outer := s.mode :: s.outer, repeatable := false }

/-- The state after something that may be repeated. -/
def passed (s : State) : State := { s with repeatable := true }

/-- Reads the start of a group after its opening parenthesis. What would look ahead or back is
refused; flags without a group count to the end of the group they stand in. -/
def group (s : State) (cs : List Char) : Option (State × List Char) :=
  match cs with
  | '?' :: '=' :: _ => none
  | '?' :: '!' :: _ => none
  | '?' :: '<' :: '=' :: _ => none
  | '?' :: '<' :: '!' :: _ => none
  | '?' :: 'P' :: '<' :: rest => named rest
  | '?' :: '<' :: rest => named rest
  | '?' :: rest => do
    let (m, anyFlags, rest) ← flags [] true s.mode rest
    match rest with
    | ':' :: rest => some (s.opened m, rest)
    | _ :: rest => if anyFlags then some ({ s with mode := m, repeatable := false }, rest) else none
    | [] => none
  | cs => some (s.opened s.mode, cs)
where
  named (cs : List Char) : Option (State × List Char) := do
    let (name, rest) ← groupName cs
    if s.names.contains name then none
    else return ({ s.opened s.mode with names := name :: s.names }, rest)

/-- Reads one construct of a pattern; `c` is its first character. -/
def step (s : State) (c : Char) (cs : List Char) : Option (State × List Char) :=
  match c with
  | '(' => s.group (s.mode.skip cs)
  | ')' =>
    match s.outer with
    | [] => none
    | m :: outer => some ({ s with mode := m, outer, repeatable := true }, cs)
  | '|' => some ({ s with repeatable := false }, cs)
  | '[' => do
    return (s.passed, ← classRest s.mode (cs.length + 1) 0 (← classStart s.mode cs))
  | '?' => repetition
  | '*' => repetition
  | '+' => repetition
  | '{' => none
  | '\\' => do
    let (e, rest) ← escape s.mode cs
    match e with
    | .literal l => if l.allowed s.mode then some (s.passed, rest) else none
    | .set negated => if allowsSet s.mode true negated then some (s.passed, rest) else none
    | .textEdge => some (s.passed, rest)
    | .wordEdge =>
      some ({ s.passed with seeksWordEdge := s.seeksWordEdge || s.mode.unicode }, rest)
  | '.' => if s.mode.unicode then some (s.passed, cs) else none
  | '^' => some (s.passed, cs)
  | '$' => some (s.passed, cs)
  | c => if Literal.allowed { char := c } s.mode then some (s.passed, cs) else none
where
  /-- A sign of repetition, which another question mark makes reluctant. -/
  repetition : Option (State × List Char) :=
    if !s.repeatable then none
    else
      match cs with
      | '?' :: rest => some (s, rest)
      | cs => some (s, cs)

/-- Reads a pattern to its end; `fuel` bounds the number of its constructs. -/
def run : Nat → State → List Char → Option State
  | 0, _, _ => none
  | fuel + 1, s, cs =>
    match s.mode.skip cs with
    | [] => if s.outer.isEmpty then some s else none
    | c :: cs => do
      let (s, rest) ← s.step c cs
      run fuel s rest

end State

/-- Checks that a pattern can be used. -/
def check (pattern : List Char) : Except Fault Unit :=
  match State.run (pattern.length + 1) {} pattern with
  | none => .error .malformed
  | some s => if s.seeksWordEdge then .error .wordEdge else .ok ()

end BeanContainer.Settings.Pattern

import BeanContainer.Settings.Pattern

/-!
Log levels, in the grammar of a library that filters by directives. A level
setting is a list of directives with commas between them. A directive is a
level, a target, or a target with a level; a target may narrow itself to spans,
in square brackets, and to spans with a field, in braces, whose value is a
literal or a pattern. A word that is no level is a target.

Blanks around a directive do not count in it, but its parts are cut out of the
directive as it was given, at the places where they stand once those blanks are
cut off. A place is a number of bytes.
-/

namespace BeanContainer.Settings.LogFilter

/-- Why a directive is refused. -/
inductive Fault where
  | unknownLevel
  | malformed
  /-- The value of a field is a pattern that cannot be used. -/
  | field (cause : Pattern.Fault)
deriving DecidableEq, Repr

/-- What is wrong, in words. -/
def Fault.message : Fault → String
  | unknownLevel =>
    "error parsing level filter: expected one of \"off\", \"error\", \"warn\", " ++
      "\"info\", \"debug\", \"trace\", or a number 0-5"
  | malformed => "invalid filter directive"
  | field cause => "invalid field filter: " ++ cause.message

/-! ## Parts of a directive -/

/-- Whether a word is a level: by name in any case, by number, or left empty. -/
def isLevel (word : String) : Bool :=
  word.isEmpty || ["off", "error", "warn", "info", "debug", "trace"].contains word.toLower ||
    isRank (match word.toList with
      | '+' :: rest => rest
      | cs => cs)
where
  isRank (cs : List Char) : Bool :=
    match (cs.dropWhile fun c => c = '0') with
    | [] => !cs.isEmpty
    | [c] => '1' ≤ c && c ≤ '5'
    | _ => false

/-- Whether a text is a number: digits with a point or without, and an exponent or none, or a word
for what is not finite. -/
def isNumber (cs : List Char) : Bool :=
  let cs := match cs with
    | '+' :: rest => rest
    | '-' :: rest => rest
    | cs => cs
  ["inf", "infinity", "nan"].contains (String.ofList cs).toLower || digits cs
where
  digits (cs : List Char) : Bool :=
    let (whole, rest) := spanDigits cs
    let (fraction, rest) := match rest with
      | '.' :: rest => spanDigits rest
      | rest => ([], rest)
    !(whole.isEmpty && fraction.isEmpty) && (match rest with
      | [] => true
      | c :: rest => (c = 'e' || c = 'E') && (exponent rest).any fun r => r.2.isEmpty)

/-- Checks a field: a name, which may be followed by its value. A value that is no truth value and
no number is a pattern. -/
def checkField (field : List Char) : Except Fault Unit :=
  if field.isEmpty then .error .malformed
  else
    match field.dropWhile fun c => c ≠ '=' with
    | [] => .ok ()
    | _ :: rest =>
      let value := rest.takeWhile fun c => c ≠ '='
      if ["true", "false"].contains (String.ofList value) || isNumber value then .ok ()
      else (Pattern.check value).mapError .field

/-- Whether a directive may start with a character. -/
def canStart (c : Char) : Bool := ['-', ':', '_'].contains c || Text.isLetter c || Text.isNumeral c

/-! ## Directives -/

/-- The characters that stand before a place. -/
def before (place : Nat) : List Char → List Char
  | [] => []
  | c :: cs => if place = 0 then [] else c :: before (place - c.utf8Size) cs

/-- The characters that stand from a place on. -/
def after (place : Nat) : List Char → List Char
  | [] => []
  | c :: cs => if place = 0 then c :: cs else after (place - c.utf8Size) cs

/-- A place cuts a text in two and loses nothing. -/
theorem before_append_after (place : Nat) (cs : List Char) :
    before place cs ++ after place cs = cs := by
  induction cs generalizing place with
  | nil => rfl
  | cons c cs ih => by_cases h : place = 0 <;> simp [before, after, h, ih]

/-- Where the reading of a directive stands. Parts that matter later know where they start. -/
inductive State where
  | start
  | target
  | span
  | field (first : Nat)
  | fieldEnd
  | spanEnd
  | level (first : Nat)

/-- Reads the character at a place of a directive that was given as `given`. -/
def State.next (given : List Char) (place : Nat) : State → Char → Except Fault State
  | start, '[' => .ok span
  | start, c => if canStart c then .ok target else .error .malformed
  | target, '=' => .ok (level (place + 1))
  | target, '[' => .ok span
  | target, _ => .ok target
  | span, ']' => .ok spanEnd
  | span, '{' => .ok (field (place + 1))
  | span, _ => .ok span
  | field first, '}' => do
    checkField (after first (before place given))
    return fieldEnd
  | field first, _ => .ok (field first)
  | fieldEnd, ']' => .ok spanEnd
  | fieldEnd, _ => .error .malformed
  | spanEnd, '=' => .ok (level (place + 1))
  | spanEnd, _ => .error .malformed
  | level first, _ => .ok (level first)

/-- Reads characters from a place on. -/
def State.run (given : List Char) (place : Nat) (s : State) : List Char → Except Fault State
  | [] => .ok s
  | c :: cs => do run given (place + c.utf8Size) (← s.next given place c) cs

/-- Checks one directive. -/
def checkDirective (directive : String) : Except Fault Unit := do
  let given := directive.toList
  match ← State.run given 0 .start (Text.trim directive).toList with
  | .target => .ok ()
  | .spanEnd => .ok ()
  | .level first =>
    if isLevel (String.ofList (after first given)) then .ok () else .error .unknownLevel
  | _ => .error .malformed

/-- Checks a level setting: its directives one after another, empty ones left out. -/
def check (level : String) : Except Fault Unit :=
  ((level.toList.splitOn ',').filter fun d => !d.isEmpty).forM fun d => checkDirective (String.ofList d)

end BeanContainer.Settings.LogFilter

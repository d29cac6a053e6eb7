import BeanContainer.Settings.Reader
import BeanContainer.Value

/-!
Reading TOML. A text is a sequence of lines: headers open a table, and
assignments put values into the table that is open. Reading goes in two steps:
`statements` splits the text, and `Tree.ofStatements` builds the tables and
refuses what would define something twice.
-/

namespace BeanContainer.Settings.Toml

/-! ## Characters -/

/-- Whether a character may stand in a comment or in a text. -/
def isPlain (c : Char) : Bool := c = '\t' || (0x20 ≤ c.toNat && c.toNat ≠ 0x7F)

/-- What is left after a comment, if there is one; it goes on to the end of its line. -/
def skipComment : List Char → Option (List Char)
  | '#' :: cs =>
    match cs.dropWhile isPlain with
    | [] => some []
    | '\n' :: rest => some ('\n' :: rest)
    | '\r' :: '\n' :: rest => some ('\n' :: rest)
    | _ => none
  | cs => some cs

/-- What is left after the end of a line. -/
def endOfLine (cs : List Char) : Option (List Char) := do
  match ← skipComment (skipBlank cs) with
  | [] => some []
  | '\n' :: rest => some rest
  | '\r' :: '\n' :: rest => some rest
  | _ => none

/-- What is left after blanks, comments and line ends; `fuel` bounds the number of lines. -/
def skipLines : Nat → List Char → Option (List Char)
  | 0, _ => none
  | fuel + 1, cs => do
    match ← skipComment (skipBlank cs) with
    | '\n' :: rest => skipLines fuel rest
    | '\r' :: '\n' :: rest => skipLines fuel rest
    | rest => some rest

/-! ## Texts -/

/-- A character that follows a backslash. -/
def escape : Reader Char
  | 'b' :: rest => some ('\x08', rest)
  | 't' :: rest => some ('\t', rest)
  | 'n' :: rest => some ('\n', rest)
  | 'f' :: rest => some ('\x0c', rest)
  | 'r' :: rest => some ('\r', rest)
  | '"' :: rest => some ('"', rest)
  | '\\' :: rest => some ('\\', rest)
  | 'u' :: rest => do scalar (← hexDigits 0 4 rest)
  | 'U' :: rest => do scalar (← hexDigits 0 8 rest)
  | _ => none
where
  scalar (r : Nat × List Char) : Option (Char × List Char) :=
    if r.1 < 0xD800 ∨ (0xE000 ≤ r.1 ∧ r.1 ≤ 0x10FFFF) then some (Char.ofNat r.1, r.2) else none

/-- A text of one line up to its closing double quote. -/
def basic : Nat → Reader (List Char)
  | 0, _ => none
  | _ + 1, [] => none
  | fuel + 1, c :: cs =>
    if c = '"' then some ([], cs)
    else if c = '\\' then do
      let (d, rest) ← escape cs
      let (more, rest) ← basic fuel rest
      return (d :: more, rest)
    else if isPlain c then do
      let (more, rest) ← basic fuel cs
      return (c :: more, rest)
    else none

/-- A text of one line up to its closing single quote; nothing in it is escaped. -/
def literal (cs : List Char) : Option (List Char × List Char) :=
  match cs.span fun c => c ≠ '\'' && isPlain c with
  | (chars, '\'' :: rest) => some (chars, rest)
  | _ => none

/-- What is left after blanks, tabs and line ends. -/
def skipSpace : List Char → List Char
  | ' ' :: rest => skipSpace rest
  | '\t' :: rest => skipSpace rest
  | '\n' :: rest => skipSpace rest
  | '\r' :: '\n' :: rest => skipSpace rest
  | cs => cs

/-- What is left after the line end that follows a backslash, and all blank space after it. -/
def continuation (cs : List Char) : Option (List Char) :=
  match skipBlank cs with
  | '\n' :: rest => some (skipSpace rest)
  | '\r' :: '\n' :: rest => some (skipSpace rest)
  | _ => none

/-- Up to two quotes before the three that close a text over several lines belong to it. -/
def closing (quote : Char) (cs : List Char) : Option (List Char × List Char) :=
  let (quotes, rest) := cs.span fun c => c = quote
  if quotes.length < 3 then none
  else if quotes.length ≤ 5 then some (quotes.drop 3, rest)
  else none

/-- A text over several lines up to its closing quotes. -/
def multiline (quote : Char) (escapes : Bool) : Nat → Reader (List Char)
  | 0, _ => none
  | _ + 1, [] => none
  | fuel + 1, c :: cs =>
    if c = quote then
      match closing quote (c :: cs) with
      | some found => some found
      | none => do
        if (c :: cs).take 3 = [quote, quote, quote] then none
        let (more, rest) ← multiline quote escapes fuel cs
        return (c :: more, rest)
    else if c = '\\' && escapes then
      match continuation cs with
      | some rest => multiline quote escapes fuel rest
      | none => do
        let (d, rest) ← escape cs
        let (more, rest) ← multiline quote escapes fuel rest
        return (d :: more, rest)
    else if c = '\r' then
      match cs with
      | '\n' :: rest => do
        let (more, rest) ← multiline quote escapes fuel rest
        return ('\n' :: more, rest)
      | _ => none
    else if isPlain c || c = '\n' then do
      let (more, rest) ← multiline quote escapes fuel cs
      return (c :: more, rest)
    else none

/-- What is left after a line end that follows the opening quotes directly. -/
def dropFirstNewline : List Char → List Char
  | '\n' :: rest => rest
  | '\r' :: '\n' :: rest => rest
  | cs => cs

/-- A quoted text, if one starts here; `none` inside means that none does. -/
def quoted (allowMultiline : Bool) (cs : List Char) : Option (Option (List Char × List Char)) :=
  let fuel := cs.length + 1
  match cs with
  | '"' :: '"' :: '"' :: rest =>
    if allowMultiline then (multiline '"' true fuel (dropFirstNewline rest)).map some
    else none
  | '\'' :: '\'' :: '\'' :: rest =>
    if allowMultiline then (multiline '\'' false fuel (dropFirstNewline rest)).map some
    else none
  | '"' :: rest => (basic fuel rest).map some
  | '\'' :: rest => (literal rest).map some
  | _ => some none

/-! ## Keys -/

/-- Whether a character may stand in a key without quotes. -/
def isBare (c : Char) : Bool := c.isAlphanum || c = '_' || c = '-'

/-- One part of a key. -/
def simpleKey (cs : List Char) : Option (String × List Char) := do
  match ← quoted false cs with
  | some (chars, rest) => return (String.ofList chars, rest)
  | none =>
    match cs.span isBare with
    | ([], _) => none
    | (chars, rest) => return (String.ofList chars, rest)

/-- Parts of a key with points between them. -/
def keyParts : Nat → Reader (List String)
  | 0, _ => none
  | fuel + 1, cs => do
    let (part, rest) ← simpleKey (skipBlank cs)
    match skipBlank rest with
    | '.' :: rest =>
      let (more, rest) ← keyParts fuel rest
      return (part :: more, rest)
    | rest => return ([part], rest)

/-- How deep values may lie in one another, and how many parts a key may have. -/
def depthLimit : Nat := 79

/-- A key. -/
def key (cs : List Char) : Option (List String × List Char) := do
  let (parts, rest) ← keyParts (cs.length + 1) cs
  if parts.length ≤ depthLimit then return (parts, rest) else none

/-! ## Values -/

/-- Digits of a base with single underscores between them. `after` tells whether a digit stands
before. -/
def grouped (isDigit : Char → Bool) (after : Bool) : List Char → Option (List Char × List Char)
  | [] => if after then some ([], []) else none
  | c :: cs =>
    if isDigit c then (grouped isDigit true cs).map fun r => (c :: r.1, r.2)
    else if c = '_' && after then grouped isDigit false cs
    else if after then some ([], c :: cs) else none

/-- Whether a number or date ends here. -/
def endsHere : List Char → Bool
  | [] => true
  | c :: _ => !(c.isAlphanum || c = '_' || c = '.' || c = '+' || c = ':' || c = '-')

/-- A number in base ten after its sign. Digits that make too large a number are refused, unless
it is negative. -/
def decimalNumber (negative : Bool) (cs : List Char) : Option (Value × List Char) := do
  let (whole, rest) ← grouped Char.isDigit false cs
  if 1 < whole.length && whole.head? = some '0' then none
  let (fraction, rest) ← match rest with
    | '.' :: rest => (grouped Char.isDigit false rest).map fun r => (some r.1, r.2)
    | _ => some (none, rest)
  let (power, rest) ← match rest with
    | 'e' :: rest => (signed rest).map fun r => (some r.1, r.2)
    | 'E' :: rest => (signed rest).map fun r => (some r.1, r.2)
    | _ => some (none, rest)
  if fraction.isNone && power.isNone then
    let n : Int := natOfDigits whole
    return (.int (← sized (if negative then -n else n)), rest)
  else
    let fraction := fraction.getD []
    let x := Double.ofDecimal negative (natOfDigits (whole ++ fraction))
      (power.getD 0 - fraction.length)
    if x = .infinite false then none else return (.real x, rest)
where
  signed (cs : List Char) : Option (Int × List Char) :=
    match cs with
    | '-' :: cs => (grouped Char.isDigit false cs).map fun r => (-(natOfDigits r.1 : Int), r.2)
    | '+' :: cs => (grouped Char.isDigit false cs).map fun r => ((natOfDigits r.1 : Int), r.2)
    | cs => (grouped Char.isDigit false cs).map fun r => ((natOfDigits r.1 : Int), r.2)

/-- A number. -/
def number (cs : List Char) : Option (Value × List Char) := do
  let (v, rest) ← match cs with
    | '0' :: 'x' :: rest => inBase 16 (fun c => (hexDigit? c).isSome) rest
    | '0' :: 'o' :: rest => inBase 8 (fun c => '0' ≤ c && c ≤ '7') rest
    | '0' :: 'b' :: rest => inBase 2 (fun c => c = '0' || c = '1') rest
    | '+' :: rest => unsigned false rest
    | '-' :: rest => unsigned true rest
    | rest => unsigned false rest
  if endsHere rest then return (v, rest) else none
where
  inBase (base : Nat) (isDigit : Char → Bool) (cs : List Char) : Option (Value × List Char) := do
    let (ds, rest) ← grouped isDigit false cs
    return (.int (← sized (natOfBase base ds)), rest)
  unsigned (negative : Bool) (cs : List Char) : Option (Value × List Char) :=
    match cs with
    | 'i' :: 'n' :: 'f' :: rest => some (.real (.infinite negative), rest)
    | 'n' :: 'a' :: 'n' :: rest => some (.real .nan, rest)
    | cs => decimalNumber negative cs

/-- A number of a fixed count of digits within bounds. -/
def fixed (count low high : Nat) (cs : List Char) : Option (List Char × List Char) :=
  let ds := cs.take count
  if ds.length = count && ds.all Char.isDigit && low ≤ natOfDigits ds && natOfDigits ds ≤ high then
    some (ds, cs.drop count)
  else none

/-- One given character. -/
def expect (c : Char) : List Char → Option (List Char)
  | d :: rest => if c = d then some rest else none
  | [] => none

/-- The digits of a fraction: at most nine, and no zeros at the end. -/
def shortened (digits : List Char) : List Char :=
  ((digits.take 9).reverse.dropWhile fun c => c = '0').reverse

/-- A time of day. -/
def time (cs : List Char) : Option (List Char × List Char) := do
  let (hour, rest) ← fixed 2 0 23 cs
  let (minute, rest) ← fixed 2 0 59 (← expect ':' rest)
  let (second, rest) ← fixed 2 0 60 (← expect ':' rest)
  let clock := hour ++ ':' :: minute ++ ':' :: second
  match rest with
  | '.' :: more =>
    match spanDigits more with
    | ([], _) => none
    | (ds, rest) =>
      match shortened ds with
      | [] => return (clock, rest)
      | ds => return (clock ++ '.' :: ds, rest)
  | rest => return (clock, rest)

/-- The difference from universal time that follows a time. No difference is written with a
plus. -/
def offset (cs : List Char) : Option (List Char × List Char) :=
  match cs with
  | 'Z' :: rest => some (['Z'], rest)
  | 'z' :: rest => some (['Z'], rest)
  | '+' :: rest => hours '+' rest
  | '-' :: rest => hours '-' rest
  | cs => some ([], cs)
where
  hours (sign : Char) (cs : List Char) : Option (List Char × List Char) := do
    let (hour, rest) ← fixed 2 0 23 cs
    let (minute, rest) ← fixed 2 0 59 (← expect ':' rest)
    let sign := if natOfDigits (hour ++ minute) = 0 then '+' else sign
    return (sign :: hour ++ ':' :: minute, rest)

/-- The number of days of a month. -/
def daysIn (year month : Nat) : Nat :=
  if month = 2 then if year % 4 = 0 ∧ (year % 100 ≠ 0 ∨ year % 400 = 0) then 29 else 28
  else if month = 4 ∨ month = 6 ∨ month = 9 ∨ month = 11 then 30 else 31

/-- A date, a time or both. -/
def moment (cs : List Char) : Option (Value × List Char) :=
  match time cs with
  | some (clock, rest) => some (.text (String.ofList clock), rest)
  | none => do
    let (year, rest) ← fixed 4 0 9999 cs
    let (month, rest) ← fixed 2 1 12 (← expect '-' rest)
    let (day, rest) ← fixed 2 1 (daysIn (natOfDigits year) (natOfDigits month)) (← expect '-' rest)
    let date := year ++ '-' :: month ++ '-' :: day
    let withTime (rest : List Char) : Option (Value × List Char) := do
      let (clock, rest) ← time rest
      let (zone, rest) ← offset rest
      return (.text (String.ofList (date ++ 'T' :: clock ++ zone)), rest)
    match rest with
    | 'T' :: more => withTime more
    | 't' :: more => withTime more
    | ' ' :: more =>
      if (time more).isSome then withTime more else some (.text (String.ofList date), rest)
    | _ => some (.text (String.ofList date), rest)

/-- Puts a value below a path of keys into an inline table; a key that has a value, or leads
through one that was closed, is refused. `closed` names the paths of values given whole. -/
def putInline (closed : List (List String)) :
    List String → List String → Value → Value → Option Value
  | _, [], _, _ => none
  | _, [k], v, .object fields =>
    if (fields.lookup k).isSome then none else some (.object (Value.putField k v fields))
  | before, k :: ks, v, .object fields =>
    let here := before ++ [k]
    if closed.contains here then none
    else
      match fields.lookup k with
      | none =>
        (putInline closed here ks v (.object [])).map fun w =>
          .object (Value.putField k w fields)
      | some w => (putInline closed here ks v w).map fun w => .object (Value.putField k w fields)
  | _, _, _, _ => none

mutual

/-- A value. `depth` bounds how deep values lie in one another, `fuel` the number of parts. -/
def value (depth : Nat) : Nat → List Char → Option (Value × List Char)
  | 0, _ => none
  | fuel + 1, cs => do
    match ← quoted true cs with
    | some (chars, rest) => return (.text (String.ofList chars), rest)
    | none =>
      match cs with
      | 't' :: 'r' :: 'u' :: 'e' :: rest =>
        if endsHere rest then return (.bool true, rest) else none
      | 'f' :: 'a' :: 'l' :: 's' :: 'e' :: rest =>
        if endsHere rest then return (.bool false, rest) else none
      | '[' :: rest =>
        match depth with
        | 0 => none
        | depth + 1 =>
          let (vs, rest) ← items depth fuel rest
          return (.list vs, rest)
      | '{' :: rest =>
        match depth with
        | 0 => none
        | depth + 1 =>
          match skipBlank rest with
          | '}' :: rest => return (.object [], rest)
          | rest =>
            let (v, rest) ← fields depth [] (.object []) fuel rest
            return (v, rest)
      | cs =>
        match moment cs with
        | some (v, rest) => if endsHere rest then return (v, rest) else number cs
        | none => number cs

/-- The items of a list up to its closing bracket; a comma may follow the last one. -/
def items (depth : Nat) : Nat → List Char → Option (List Value × List Char)
  | 0, _ => none
  | fuel + 1, cs => do
    match ← skipLines (cs.length + 1) cs with
    | ']' :: rest => return ([], rest)
    | cs =>
      let (v, rest) ← value depth fuel cs
      match ← skipLines (rest.length + 1) rest with
      | ',' :: rest =>
        let (vs, rest) ← items depth fuel rest
        return (v :: vs, rest)
      | ']' :: rest => return ([v], rest)
      | _ => none

/-- The fields of an inline table up to its closing brace, put into what was read before. -/
def fields (depth : Nat) (closed : List (List String)) (before : Value) :
    Nat → List Char → Option (Value × List Char)
  | 0, _ => none
  | fuel + 1, cs => do
    let (path, rest) ← key cs
    let rest ← expect '=' (skipBlank rest)
    let (v, rest) ← value depth fuel (skipBlank rest)
    let table ← putInline closed [] path v before
    match skipBlank rest with
    | ',' :: rest => fields depth (path :: closed) table fuel rest
    | '}' :: rest => return (table, rest)
    | _ => none

end

/-! ## Statements -/

/-- A line of a text. -/
inductive Statement where
  /-- Opens the table at a path. -/
  | table (path : List String)
  /-- Opens a new table at the end of the list at a path. -/
  | item (path : List String)
  /-- Puts a value below a key of the open table. -/
  | assign (path : List String) (value : Value)

/-- One statement. -/
def statement (cs : List Char) : Option (Statement × List Char) := do
  match cs with
  | '[' :: '[' :: rest =>
    let (path, rest) ← key rest
    return (.item path, ← expect ']' (← expect ']' rest))
  | '[' :: rest =>
    let (path, rest) ← key rest
    return (.table path, ← expect ']' rest)
  | cs =>
    let (path, rest) ← key cs
    let rest ← expect '=' (skipBlank rest)
    let (v, rest) ← value depthLimit (2 * rest.length + 2) (skipBlank rest)
    return (.assign path v, rest)

/-- The statements of a text; `fuel` bounds their number. -/
def statements : Nat → List Char → Option (List Statement)
  | 0, _ => none
  | fuel + 1, cs => do
    match ← skipLines (cs.length + 1) cs with
    | [] => return []
    | cs =>
      let (s, rest) ← statement cs
      return s :: (← statements fuel (← endOfLine rest))

/-! ## Tables -/

/-- How a table came to be, which decides what may still be added to it. -/
inductive Origin where
  /-- On the way to another table. -/
  | implied
  /-- By a header of its own. -/
  | header
  /-- On the way of a key with points. -/
  | dotted
deriving DecidableEq

/-- A table in the making. -/
inductive Tree where
  /-- A value given whole. -/
  | leaf (value : Value)
  | table (origin : Origin) (entries : List (String × Tree))
  /-- A list of tables that grows by headers, latest first. -/
  | tables (items : List (List (String × Tree)))

namespace Tree

/-- Puts a tree under a key. -/
def put (k : String) (t : Tree) : List (String × Tree) → List (String × Tree)
  | [] => [(k, t)]
  | (l, u) :: rest => if k = l then (k, t) :: rest else (l, u) :: put k t rest

/-- Puts a value below a key of a table. No table on the way may have a header of its own, and
the one that takes the value must come from a key with points or not be there yet. -/
def assign (v : Value) : List String → List (String × Tree) → Option (List (String × Tree))
  | [], _ => none
  | [k], entries => if (entries.lookup k).isSome then none else some (put k (.leaf v) entries)
  | k :: ks, entries =>
    match entries.lookup k with
    | none => (assign v ks []).map fun t => put k (.table .dotted t) entries
    | some (.table origin below) =>
      if origin = .dotted || (origin = .implied && 1 < ks.length) then
        (assign v ks below).map fun t => put k (.table origin t) entries
      else none
    | some (.tables (latest :: older)) =>
      if 1 < ks.length then
        (assign v ks latest).map fun t => put k (.tables (t :: older)) entries
      else none
    | some _ => none

/-- Does something with the entries of the table at a path of headers. The last part opens the
table, as a new item of a list if `asItem`; the way there leads through latest items. -/
def atHeader (asItem opens : Bool) (change : List (String × Tree) → Option (List (String × Tree))) :
    List String → List (String × Tree) → Option (List (String × Tree))
  | [], entries => change entries
  | [k], entries =>
    match asItem, entries.lookup k with
    | true, none => (change []).map fun t => put k (.tables [t]) entries
    | true, some (.tables items) =>
      if opens then (change []).map fun t => put k (.tables (t :: items)) entries
      else
        match items with
        | latest :: older => (change latest).map fun t => put k (.tables (t :: older)) entries
        | [] => none
    | false, none => (change []).map fun t => put k (.table .header t) entries
    | false, some (.table origin below) =>
      if opens && origin ≠ .implied then none
      else (change below).map fun t => put k (.table .header t) entries
    | _, some _ => none
  | k :: ks, entries =>
    match entries.lookup k with
    | none => (atHeader asItem opens change ks []).map fun t => put k (.table .implied t) entries
    | some (.table origin below) =>
      (atHeader asItem opens change ks below).map fun t => put k (.table origin t) entries
    | some (.tables (latest :: older)) =>
      (atHeader asItem opens change ks latest).map fun t => put k (.tables (t :: older)) entries
    | some _ => none

/-- The table that statements build. `path` leads to the open table, an item of a list if
`asItem`. -/
def ofStatements (path : List String) (asItem : Bool) (root : List (String × Tree)) :
    List Statement → Option (List (String × Tree))
  | [] => some root
  | .table p :: rest => do ofStatements p false (← atHeader false true some p root) rest
  | .item p :: rest => do ofStatements p true (← atHeader true true some p root) rest
  | .assign key v :: rest => do
    ofStatements path asItem (← atHeader asItem false (assign v key) path root) rest

mutual

/-- The value that a tree stands for. -/
def toValue : Tree → Value
  | leaf v => v
  | table _ entries => Value.ofFields (toFields entries)
  | tables items => .list (toItems items)

/-- The values of entries. -/
def toFields : List (String × Tree) → List (String × Value)
  | [] => []
  | (k, t) :: rest => (k, toValue t) :: toFields rest

/-- The values of the items of a list that grew by headers, oldest first. -/
def toItems : List (List (String × Tree)) → List Value
  | [] => []
  | entries :: rest => toItems rest ++ [Value.ofFields (toFields entries)]

end

end Tree

/-- The table that a text holds. -/
def read (s : String) : Option Value := do
  let lines ← statements (s.length + 1) s.toList
  let root ← Tree.ofStatements [] false [] lines
  return (Tree.table .header root).toValue

end BeanContainer.Settings.Toml

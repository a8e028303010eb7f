import FleetHealth.Json.Reader

/-!
# Text in TOML

Blanks, comments and line ends, the four kinds of string, and dotted keys, read from the list of
characters left.
-/
namespace FleetHealth.Toml

def isBlank (c : Char) : Bool := c == ' ' || c == '\t'

def skipBlanks (cs : List Char) : List Char := cs.dropWhile isBlank

/-- A character that can stand in a comment or on one line of a string. -/
def isPlain (c : Char) : Bool := c == '\t' || (0x20 ≤ c.toNat && c.toNat ≠ 0x7F)

/-- What follows a line break. -/
def afterBreak? : List Char → Option (List Char)
  | '\n' :: rest => some rest
  | '\r' :: '\n' :: rest => some rest
  | _ => none

def skipComment : List Char → List Char
  | '#' :: rest => rest.dropWhile isPlain
  | cs => cs

/-- What follows the end of a line: blanks, a comment, and a line break or the end of the text. -/
def afterLine? (cs : List Char) : Option (List Char) :=
  match skipComment (skipBlanks cs) with
  | [] => some []
  | cs => afterBreak? cs

/-- Leaves out blanks, line breaks and comments. -/
def skipFill (inComment : Bool) : List Char → List Char
  | [] => []
  | '\n' :: rest => skipFill false rest
  | '\r' :: '\n' :: rest => skipFill false rest
  | c :: rest =>
    if (inComment && isPlain c) || isBlank c then skipFill inComment rest
    else if !inComment && c == '#' then skipFill true rest
    else c :: rest

/-- Leaves out blanks and line breaks. -/
def skipSpace (cs : List Char) : List Char :=
  cs.dropWhile fun c => isBlank c || c == '\n' || c == '\r'

def hexNumber? : (n acc : Nat) → List Char → Option (Nat × List Char)
  | 0, acc, cs => some (acc, cs)
  | n + 1, acc, c :: rest => do hexNumber? n (acc * 16 + (← Json.Reader.hexValue? c)) rest
  | _ + 1, _, [] => none

/-- The character of a number. -/
def scalar? (n : Nat) : Option Char := if n.isValidChar then some (Char.ofNat n) else none

/-- The character that an escape after its backslash stands for. -/
def escape? : List Char → Option (Char × List Char)
  | 'u' :: rest => do
    let (n, rest) ← hexNumber? 4 0 rest
    return (← scalar? n, rest)
  | 'U' :: rest => do
    let (n, rest) ← hexNumber? 8 0 rest
    return (← scalar? n, rest)
  | '/' :: _ => none
  | c :: rest => do return (← Json.Reader.escape? c, rest)
  | [] => none

/-- The rest of a string on one line after its opening quote; `done` holds its characters in
reverse. -/
def quoted? : (fuel : Nat) → (done : List Char) → List Char → Option (String × List Char)
  | 0, _, _ => none
  | _, _, [] => none
  | fuel + 1, done, c :: rest =>
    if c = '"' then some (String.ofList done.reverse, rest)
    else if c = '\\' then do
      let (c, rest) ← escape? rest
      quoted? fuel (c :: done) rest
    else if isPlain c then quoted? fuel (c :: done) rest
    else none

/-- The rest of a string without escapes on one line. -/
def literal? (cs : List Char) : Option (String × List Char) :=
  let body := cs.takeWhile fun c => isPlain c && c != '\''
  match cs.drop body.length with
  | '\'' :: rest => some (String.ofList body, rest)
  | _ => none

/-- The end of a string over several lines, once its closing quotes are read: up to two more quotes
in front of them belong to the string. -/
def closeBlock (quote : Char) (done : List Char) : List Char → String × List Char
  | a :: b :: rest =>
    if a = quote ∧ b = quote then (String.ofList (b :: a :: done).reverse, rest)
    else if a = quote then (String.ofList (a :: done).reverse, b :: rest)
    else (String.ofList done.reverse, a :: b :: rest)
  | [a] =>
    if a = quote then (String.ofList (a :: done).reverse, [])
    else (String.ofList done.reverse, [a])
  | [] => (String.ofList done.reverse, [])

/-- What follows three quotes. -/
def afterQuotes? (quote : Char) : List Char → Option (List Char)
  | a :: b :: c :: rest => if a = quote ∧ b = quote ∧ c = quote then some rest else none
  | _ => none

/-- The rest of a string over several lines. A backslash at the end of a line leaves out all space
up to the next character. Without escapes a backslash stands for itself. -/
def block? (quote : Char) (escapes : Bool) :
    (fuel : Nat) → (done : List Char) → List Char → Option (String × List Char)
  | 0, _, _ => none
  | _, _, [] => none
  | fuel + 1, done, c :: rest =>
    match afterQuotes? quote (c :: rest) with
    | some rest => some (closeBlock quote done rest)
    | none =>
      if escapes ∧ c = '\\' then
        match afterBreak? (skipBlanks rest) with
        | some rest => block? quote escapes fuel done (skipSpace rest)
        | none => do
          let (c, rest) ← escape? rest
          block? quote escapes fuel (c :: done) rest
      else
        match afterBreak? (c :: rest) with
        | some rest => block? quote escapes fuel ('\n' :: done) rest
        | none => if isPlain c then block? quote escapes fuel (c :: done) rest else none

/-- A line break directly after the opening quotes is no part of the string. -/
def openBlock (cs : List Char) : List Char := (afterBreak? cs).getD cs

def string? (cs : List Char) : Option (String × List Char) :=
  match afterQuotes? '"' cs, afterQuotes? '\'' cs, cs with
  | some rest, _, _ => block? '"' true (cs.length + 1) [] (openBlock rest)
  | _, some rest, _ => block? '\'' false (cs.length + 1) [] (openBlock rest)
  | _, _, '"' :: rest => quoted? (cs.length + 1) [] rest
  | _, _, '\'' :: rest => literal? rest
  | _, _, _ => none

def isBare (c : Char) : Bool := c.isAlphanum || c == '_' || c == '-'

/-- One name of a key: bare, or a string on one line. -/
def name? : List Char → Option (String × List Char)
  | '"' :: rest => quoted? (rest.length + 1) [] rest
  | '\'' :: rest => literal? rest
  | cs =>
    let bare := cs.takeWhile isBare
    if bare.isEmpty then none else some (String.ofList bare, cs.drop bare.length)

/-- A dotted key, with blanks around its names. -/
def key? : (fuel : Nat) → List Char → Option (List String × List Char)
  | 0, _ => none
  | fuel + 1, cs => do
    let (name, rest) ← name? (skipBlanks cs)
    match skipBlanks rest with
    | '.' :: rest => do
      let (names, rest) ← key? fuel rest
      return (name :: names, rest)
    | rest => return ([name], rest)

end FleetHealth.Toml

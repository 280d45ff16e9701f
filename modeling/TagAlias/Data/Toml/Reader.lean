import TagAlias.Data.Number
import TagAlias.Data.Toml.Fault
/-!
# Reading TOML

`read` takes a whole text, in which a carriage return and a line feed are one line end.  Statements fill a document of
nested tables.  Some names in it are closed to later statements: a table that has a header of its own, one that a dotted
key made once its section is over, and everything in an inline table or array.
-/
namespace TagAlias.Toml

/-- What is read at the beginning of a text, and the rest of it. -/
abbrev Reading (α : Type) := Except Fault (α × List Char)

/-- A fault at the beginning of what is left. -/
def fail {α : Type} (cause : Cause) (left : List Char) : Except Fault α := .error ⟨cause, left.length⟩

/-! ## Characters -/

def isBlank (c : Char) : Bool := c == ' ' || c == '\t'

def isBlankOrLineEnd (c : Char) : Bool := isBlank c || c == '\n'

def skip (cs : List Char) : List Char := cs.dropWhile isBlank

/-- The control characters that no string on one line and no comment may hold. -/
def isControl (c : Char) : Bool := (c.toNat < 0x20 && c != '\t') || c == '\x7f'

def isControlInLines (c : Char) : Bool := isControl c && c != '\n'

def isBare (c : Char) : Bool := c.isAlphanum || c == '-' || c == '_'

/-- Line ends of two characters become those of one. -/
def unifyLineEnds : List Char → List Char
  | '\r' :: '\n' :: r => '\n' :: unifyLineEnds r
  | c :: r => c :: unifyLineEnds r
  | [] => []

/-- Fails at the first of so many characters that is not allowed. -/
def allow (isIllegal : Char → Bool) (n : Nat) (cs : List Char) : Except Fault Unit :=
  match n, cs with
  | n + 1, c :: r => if isIllegal c then fail (.found c) (c :: r) else allow isIllegal n r
  | _, _ => .ok ()

def comment : List Char → Except Fault (List Char)
  | '#' :: r => do
    allow isControl (r.takeWhile (· != '\n')).length r
    return r.dropWhile (· != '\n')
  | r => .ok r

def skipLines : Nat → List Char → Except Fault (List Char)
  | 0, cs => .ok cs
  | n + 1, cs =>
    match cs.dropWhile isBlankOrLineEnd with
    | '#' :: r => (comment ('#' :: r)).bind (skipLines n)
    | r => .ok r

def skipAll (cs : List Char) : Except Fault (List Char) := skipLines (cs.length + 1) cs

/-! ## Strings -/

/-- What a string is in the middle of. -/
inductive Mode where
  | plain
  /-- Blanks up to a line end that has to come. -/
  | seeking
  /-- Blanks and line ends. -/
  | skipping
  deriving DecidableEq

def escapes : List (Char × Char) :=
  [('b', '\x08'), ('t', '\t'), ('n', '\n'), ('f', '\x0c'), ('r', '\r'), ('"', '"'), ('\\', '\\')]

/-- The character of a number given by so many hexadecimal digits at the beginning of a text. -/
def scalarOf (width : Nat) (cs : List Char) : Except Fault Char :=
  let ds := cs.take width
  let n := Number.ofDigits 16 ds
  if ds.length != width || !ds.all Number.isHexDigit then fail .hexadecimal cs
  else if n < 0xD800 || (0xE000 ≤ n && n < 0x110000) then .ok (Char.ofNat n)
  else fail .noScalar (cs.drop width)

/-- What is left of a string in double quotes up to its end, where `done` has been read, last character first. -/
def basic (multi : Bool) (mode : Mode) (done : List Char) : List Char → Reading (List Char)
  | [] => fail .unterminated []
  | c :: r =>
    if mode == .skipping && isBlankOrLineEnd c then basic multi .skipping done r
    else if mode == .seeking then
      if c == '\n' then basic multi .skipping done r
      else if isBlank c then basic multi .seeking done r
      else fail .escape (c :: r)
    else if c == '"' then
      if multi then
        match r with
        | '"' :: '"' :: r => .ok (done.reverse, r)
        | _ => basic multi .plain (c :: done) r
      else .ok (done.reverse, r)
    else if c == '\\' then
      match r with
      | e :: r =>
        if multi && e == '\n' then basic multi .skipping done r
        else if multi && isBlank e then basic multi .seeking done r
        else if e == 'u' then
          match scalarOf 4 r, r with
          | .ok x, _ :: _ :: _ :: _ :: r => basic multi .plain (x :: done) r
          | .ok _, _ => fail .hexadecimal r
          | .error f, _ => .error f
        else if e == 'U' then
          match scalarOf 8 r, r with
          | .ok x, _ :: _ :: _ :: _ :: _ :: _ :: _ :: _ :: r => basic multi .plain (x :: done) r
          | .ok _, _ => fail .hexadecimal r
          | .error f, _ => .error f
        else
          match escapes.lookup e with
          | some x => basic multi .plain (x :: done) r
          | none => fail .escape r
      | [] => fail .escape []
    else if isControl c && !(multi && c == '\n') then fail (.illegal c) (c :: r)
    else basic multi .plain (c :: done) r

/-- The text up to a mark, and what follows the mark. -/
def upTo (mark : List Char) (done : List Char) : List Char → Option (List Char × List Char)
  | [] => none
  | c :: r =>
    if mark.isPrefixOf (c :: r) then some (done.reverse, (c :: r).drop mark.length) else upTo mark (c :: done) r

/-- What is left of a string in single quotes up to the mark that ends it. -/
def literal (mark : List Char) (isIllegal : Char → Bool) (cs : List Char) : Reading (List Char) :=
  match upTo mark [] cs with
  | none => fail (.expected (String.ofList mark)) []
  | some (body, r) => (allow isIllegal body.length cs).map (fun _ => (body, r))

/-- Up to two quotes right behind a closing triple belong to the string. -/
def extraQuotes (quote : Char) (s : List Char × List Char) : List Char × List Char :=
  let extra := (s.2.take 2).takeWhile (· == quote)
  (s.1 ++ extra, s.2.drop extra.length)

def dropLineEnd : List Char → List Char
  | '\n' :: r => r
  | r => r

def text (s : List Char × List Char) : String × List Char := (String.ofList s.1, s.2)

def string (cs : List Char) : Reading String :=
  match cs with
  | '"' :: '"' :: '"' :: r => (basic true .plain [] (dropLineEnd r)).map (text ∘ extraQuotes '"')
  | '"' :: r => (basic false .plain [] r).map text
  | '\'' :: '\'' :: '\'' :: r =>
    (literal ['\'', '\'', '\''] isControlInLines (dropLineEnd r)).map (text ∘ extraQuotes '\'')
  | '\'' :: r => (literal ['\''] isControl r).map text
  | _ => fail .value cs

/-! ## Keys -/

def keyPart (cs : List Char) : Reading String :=
  match cs with
  | '"' :: r => (basic false .plain [] r).map text
  | '\'' :: r => (literal ['\''] isControl r).map text
  | _ =>
    let bare := cs.takeWhile isBare
    if bare.isEmpty then fail .keyPart cs else .ok (String.ofList bare, cs.dropWhile isBare)

/-- A key of one or more parts with dots between, and blanks after it. -/
def keyFrom : Nat → List Char → Reading (List String)
  | 0, cs => fail .keyPart cs
  | n + 1, cs =>
    match keyPart cs with
    | .error f => .error f
    | .ok (part, r) =>
      match skip r with
      | '.' :: r => (keyFrom n (skip r)).map (fun (k, r) => (part :: k, r))
      | r => .ok ([part], r)

def key (cs : List Char) : Reading (List String) := keyFrom (cs.length + 1) cs

/-! ## Numbers -/

/-- The rest of digits that single underscores may divide; the digits come first. -/
def moreDigits (isDigit : Char → Bool) (done : List Char) : List Char → List Char × List Char
  | '_' :: c :: r => if isDigit c then moreDigits isDigit (c :: done) r else (done.reverse, '_' :: c :: r)
  | c :: r => if isDigit c then moreDigits isDigit (c :: done) r else (done.reverse, c :: r)
  | [] => (done.reverse, [])

def digits? (isDigit : Char → Bool) : List Char → Option (List Char × List Char)
  | c :: r => if isDigit c then some (moreDigits isDigit [c] r) else none
  | [] => none

def isBinaryDigit (c : Char) : Bool := c == '0' || c == '1'

def isOctalDigit (c : Char) : Bool := '0' ≤ c && c ≤ '7'

/-- A number of another base than ten. -/
def based? (cs : List Char) : Option (Value × List Char) :=
  let of (base : Nat) (isDigit : Char → Bool) (r : List Char) :=
    (digits? isDigit r).map (fun (ds, r) => (Value.integer (Number.ofDigits base ds), r))
  match cs with
  | '0' :: 'x' :: r => of 16 Number.isHexDigit r
  | '0' :: 'b' :: r => of 2 isBinaryDigit r
  | '0' :: 'o' :: r => of 8 isOctalDigit r
  | _ => none

/-- The part of a number before its point: a zero, or digits that begin with another. -/
def whole? : List Char → Option (List Char × List Char)
  | '0' :: r => some (['0'], r)
  | r => digits? Char.isDigit r

def fraction? : List Char → Option (List Char × List Char)
  | '.' :: r => digits? Char.isDigit r
  | _ => none

def power? : List Char → Option (Int × List Char)
  | c :: r =>
    if c == 'e' || c == 'E' then
      let (negative, r) := Number.splitSign r
      (digits? Char.isDigit r).map (fun (ds, r) => (Number.exponent ((if negative then '-' else '+') :: ds), r))
    else none
  | [] => none

/-- A decimal number, if there is one; an integer of too many digits fails. -/
def decimal? (cs : List Char) : Option (Reading Value) :=
  let (negative, r) := Number.splitSign cs
  match whole? r with
  | none => none
  | some (whole, r) =>
    some (match fraction? r with
      | some (fraction, r) =>
        match power? r with
        | some (e, r) => .ok (Number.real negative whole fraction e, r)
        | none => .ok (Number.real negative whole fraction 0, r)
      | none =>
        match power? r with
        | some (e, r) => .ok (Number.real negative whole [] e, r)
        | none =>
          if Number.digitLimit < whole.length then fail .tooLong cs
          else .ok (Number.integer negative (Number.ofDigits 10 whole), r))

def words : List (String × Value) :=
  [("true", .bool true), ("false", .bool false)]

def specialReals : List (String × Value) :=
  [("inf", .real (.infinite false)), ("nan", .real .nan), ("-inf", .real (.infinite true)),
    ("+inf", .real (.infinite false)), ("-nan", .real .nan), ("+nan", .real .nan)]

def word? (table : List (String × Value)) (cs : List Char) : Option (Value × List Char) :=
  (table.find? (fun w => w.1.toList.isPrefixOf cs)).map (fun w => (w.2, cs.drop w.1.length))

/-! ## Dates and times -/

/-- A number of exactly `width` digits. -/
def field? (width : Nat) (cs : List Char) : Option (Nat × List Char) :=
  let ds := cs.take width
  if ds.length == width && ds.all Char.isDigit then some (Number.ofDigits 10 ds, cs.drop width) else none

def expect (c : Char) : List Char → Option (List Char)
  | d :: r => if c == d then some r else none
  | [] => none

/-- The microseconds that a fraction of a second gives; digits after the sixth do not count. -/
def microseconds (ds : List Char) : Nat :=
  let six := ds.take 6
  Number.ofDigits 10 (six ++ List.replicate (6 - six.length) '0')

def time? (cs : List Char) : Option (TimeOfDay × List Char) := do
  let (hour, r) ← field? 2 cs
  let (minute, r) ← (expect ':' r).bind (field? 2)
  let (second, r) ← (expect ':' r).bind (field? 2)
  let t : TimeOfDay := ⟨hour, minute, second, 0⟩
  if !t.exists_ then none
  else
    match r with
    | '.' :: r' =>
      let ds := r'.takeWhile Char.isDigit
      if ds.isEmpty then some (t, r)
      else some ({ t with microsecond := microseconds ds }, r'.dropWhile Char.isDigit)
    | _ => some (t, r)

/-- The distance from universal time in minutes, if it is given. -/
def offset? (cs : List Char) : Option (Int × List Char) :=
  match cs with
  | c :: r =>
    if c == 'Z' || c == 'z' then some (0, r)
    else if c == '+' || c == '-' then do
      let (hours, r) ← field? 2 r
      let (minutes, r) ← (expect ':' r).bind (field? 2)
      if hours < 24 && minutes < 60 then
        some ((if c == '-' then -1 else 1) * (60 * hours + minutes : Nat), r)
      else none
    else none
  | [] => none

def day? (cs : List Char) : Option (Day × List Char) := do
  let (year, r) ← field? 4 cs
  let (month, r) ← (expect '-' r).bind (field? 2)
  let (day, r) ← (expect '-' r).bind (field? 2)
  if 1 ≤ month && month ≤ 12 && 1 ≤ day && day ≤ 31 then some (⟨year, month, day⟩, r) else none

/-- A date, with a time if one follows. -/
def date? (cs : List Char) : Option (Moment × List Char) :=
  match day? cs with
  | none => none
  | some (d, r) =>
    match r with
    | c :: r' =>
      if c == 'T' || c == 't' || c == ' ' then
        match time? r' with
        | some (t, r) =>
          match offset? r with
          | some (o, r) => some (.both d t (some o), r)
          | none => some (.both d t none, r)
        | none => some (.date d, r)
      else some (.date d, r)
    | [] => some (.date d, r)

def inCalendar : Moment → Bool
  | .date d => d.exists_
  | .time _ => true
  | .both d _ _ => d.exists_

def number (cs : List Char) : Reading Value :=
  match based? cs, decimal? cs, word? specialReals cs with
  | some v, _, _ => .ok v
  | none, some v, _ => v
  | none, none, some v => .ok v
  | none, none, none => fail .value cs

/-- A value that is neither a string nor holds others. -/
def scalar (cs : List Char) : Reading Value :=
  match word? words cs, date? cs, time? cs with
  | some v, _, _ => .ok v
  | none, some (m, r), _ => if inCalendar m then .ok (.moment m, r) else fail .date cs
  | none, none, some (t, r) => .ok (.moment (.time t), r)
  | none, none, none => number cs

/-! ## Nested tables -/

abbrev Entries := List (String × Value)

/-- The entries of the table that a value is; of a list of tables, those of the last. -/
def nest? (throughLists : Bool) : Value → Option Entries
  | .table es => some es
  | .list vs =>
    if throughLists then
      match vs.getLast? with
      | some (.table es) => some es
      | _ => none
    else none
  | _ => none

/-- The value with other entries in the place of those. -/
def withNest : Value → Entries → Value
  | .list vs, es => .list (vs.dropLast ++ [.table es])
  | _, es => .table es

/-- Changes the entries of the table behind a key, which is made if it is not there. -/
def changeAt {ε : Type} (throughLists : Bool) (blocked : ε) (change : Entries → Except ε Entries) :
    List String → Entries → Except ε Entries
  | [], es => change es
  | k :: rest, es =>
    let here := (es.lookup k).getD (.table [])
    match nest? throughLists here with
    | none => .error blocked
    | some inner =>
      (changeAt throughLists blocked change rest inner).map (fun inner => Value.put es k (withNest here inner))

/-- Adds an entry under a name that is not taken. -/
def addEntry {ε : Type} (taken : ε) (name : String) (v : Value) (es : Entries) : Except ε Entries :=
  if es.any (·.1 == name) then .error taken else .ok (es ++ [(name, v)])

/-- Adds an empty table to the list under a name. -/
def addItem {ε : Type} (taken : ε) (name : String) (es : Entries) : Except ε Entries :=
  match es.lookup name with
  | none => .ok (es ++ [(name, .list [.table []])])
  | some (.list vs) => .ok (Value.put es name (.list (vs ++ [.table []])))
  | some _ => .error taken

/-! ## Closed names -/

inductive Closing where
  /-- The table may not get a header. -/
  | header
  /-- Nothing in it may change. -/
  | frozen
  deriving DecidableEq, Repr

/-- A key that is closed, and whether everything below it is too. -/
structure Closed where
  key : List String
  closing : Closing
  below : Bool
  deriving DecidableEq, Repr

def isClosed (cl : List Closed) (k : List String) (c : Closing) : Bool :=
  !k.isEmpty && cl.any (fun e => e.closing == c && (e.key == k || (e.below && e.key.isPrefixOf k)))

/-! ## Values -/

def isNested : Value → Bool
  | .table _ => true
  | .list _ => true
  | _ => false

def splitKey (k : List String) : List String × String := (k.dropLast, k.getLast?.getD "")

mutual

/-- A value and what follows it, for nestings up to a depth that the first argument bounds. -/
def value : Nat → List Char → Reading Value
  | 0, cs => fail .value cs
  | n + 1, cs =>
    match cs with
    | '"' :: _ => (string cs).map (fun (s, r) => (.text s, r))
    | '\'' :: _ => (string cs).map (fun (s, r) => (.text s, r))
    | '[' :: r => (skipAll r).bind (array n [])
    | '\x7b' :: r =>
      match skip r with
      | '\x7d' :: r => .ok (.table [], r)
      | r => inline n [] [] r
    | _ => scalar cs

def array : Nat → List Value → List Char → Reading Value
  | 0, _, cs => fail .array cs
  | n + 1, done, cs =>
    match cs with
    | ']' :: r => .ok (.list done.reverse, r)
    | _ =>
      match value n cs with
      | .error f => .error f
      | .ok (v, r) =>
        match skipAll r with
        | .error f => .error f
        | .ok (',' :: r) => (skipAll r).bind (array n (v :: done))
        | .ok (']' :: r) => .ok (.list (v :: done).reverse, r)
        | .ok r => fail .array r

def pair : Nat → List Char → Reading (List String × Value)
  | 0, cs => fail .keyPart cs
  | n + 1, cs =>
    match key cs with
    | .error f => .error f
    | .ok (k, '=' :: r) => (value n (skip r)).map (fun (v, r) => ((k, v), r))
    | .ok (_, r) => fail .equalsSign r

/-- The entries of an inline table, of which some have been read. -/
def inline : Nat → Entries → List Closed → List Char → Reading Value
  | 0, _, _, cs => fail .inlineTable cs
  | n + 1, es, cl, cs =>
    match pair n cs with
    | .error f => .error f
    | .ok ((k, v), r) =>
      let (above, name) := splitKey k
      let here (c : Cause) : Fault := ⟨c, r.length⟩
      if isClosed cl k .frozen then .error (here (.immutable k))
      else
        match changeAt false (here .overwritten) (addEntry (here (.duplicate name)) name v) above es with
        | .error f => .error f
        | .ok es =>
          match skip r with
          | '\x7d' :: r => .ok (.table es, r)
          | ',' :: r => inline n es (if isNested v then ⟨k, .frozen, true⟩ :: cl else cl) (skip r)
          | r => fail .inlineTable r

end

/-! ## Statements -/

structure Document where
  entries : Entries
  closed : List Closed
  /-- Names to be closed when the section ends. -/
  pending : List Closed
  /-- The key of the section. -/
  section_ : List String

def close (cl : List Closed) (k : List String) : List Closed := ⟨k, .header, false⟩ :: cl

def tableHeader (d : Document) (cs : List Char) : Reading Document :=
  match key (skip cs) with
  | .error f => .error f
  | .ok (k, r) =>
    if isClosed d.closed k .header || isClosed d.closed k .frozen then fail (.declaredTwice k) r
    else
      match changeAt true ⟨.overwritten, r.length⟩ .ok k d.entries, r with
      | .error f, _ => .error f
      | .ok es, ']' :: r => .ok (⟨es, close d.closed k, [], k⟩, r)
      | .ok _, r => fail .tableEnd r

/-- A header of an item of a list of tables.  What was closed in the item before is open again. -/
def itemHeader (d : Document) (cs : List Char) : Reading Document :=
  match key (skip cs) with
  | .error f => .error f
  | .ok (k, r) =>
    if isClosed d.closed k .frozen then fail (.immutable k) r
    else
      let (above, name) := splitKey k
      let blocked : Fault := ⟨.overwritten, r.length⟩
      match changeAt true blocked (addItem blocked name) above d.entries, r with
      | .error f, _ => .error f
      | .ok es, ']' :: ']' :: r => .ok (⟨es, close (d.closed.filter (fun e => !k.isPrefixOf e.key)) k, [], k⟩, r)
      | .ok _, r => fail .itemEnd r

/-- The keys above a key of a section that its dots make. -/
def dottedAbove (sec k : List String) : List (List String) :=
  (List.range (k.length - 1)).map (fun i => sec ++ k.take (i + 1))

def entry (d : Document) (cs : List Char) : Reading Document :=
  match pair (2 * cs.length + 2) cs with
  | .error f => .error f
  | .ok ((k, v), r) =>
    let (above, name) := splitKey k
    let dotted := dottedAbove d.section_ k
    let blocked : Fault := ⟨.overwritten, r.length⟩
    match dotted.find? (isClosed d.closed · .header) with
    | some k => fail (.redefined k) r
    | none =>
      if isClosed d.closed (d.section_ ++ above) .frozen then fail (.immutable (d.section_ ++ above)) r
      else
        (changeAt true blocked (addEntry blocked name v) (d.section_ ++ above) d.entries).map (fun es =>
          (⟨es, if isNested v then ⟨d.section_ ++ k, .frozen, true⟩ :: d.closed else d.closed,
            dotted.map (fun k => ⟨k, .header, false⟩) ++ d.pending, d.section_⟩, r))

def endSection (d : Document) : Document := { d with closed := d.pending ++ d.closed, pending := [] }

/-- A statement at the beginning of a line, or nothing where the line is empty or a comment. -/
def statement (d : Document) (cs : List Char) : Reading Document :=
  match cs with
  | '[' :: '[' :: r => itemHeader (endSection d) r
  | '[' :: r => tableHeader (endSection d) r
  | c :: r =>
    if isBare c || c == '"' || c == '\'' then entry d cs
    else if c == '\n' || c == '#' then .ok (d, cs)
    else fail .statement (c :: r)
  | [] => .ok (d, cs)

/-- The statements of a text, a line at a time. -/
def statements : Nat → Document → List Char → Except Fault Document
  | 0, _, cs => fail .statement cs
  | n + 1, d, cs =>
    match statement d (skip cs) with
    | .error f => .error f
    | .ok (d, r) =>
      match comment (skip r) with
      | .error f => .error f
      | .ok [] => .ok d
      | .ok ('\n' :: r) => statements n d r
      | .ok r => fail .afterStatement r

/-- The table of a text, whose line ends are unified. -/
def readUnified (cs : List Char) : Except Fault Value :=
  (statements (cs.length + 2) ⟨[], [], [], []⟩ cs).map (fun d => .table d.entries)

/-- The table of a text; if there is a fault, its cause and its message. -/
def read (cs : List Char) : Except (Cause × String) Value :=
  (readUnified (unifyLineEnds cs)).mapError (fun f => (f.cause, f.message (unifyLineEnds cs)))

end TagAlias.Toml

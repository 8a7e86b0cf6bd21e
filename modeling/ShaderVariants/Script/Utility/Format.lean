import ShaderVariants.Decimal.Binary64
import ShaderVariants.Script.Arithmetic
import ShaderVariants.Script.Utility.Fields

/-!
# Printing

Printing words as they are, and printing them in a format. A format is used again as long as there
are words left for it; its conversions write texts, characters, and numbers in several notations.
-/

namespace ShaderVariants.Script.Utility

/-- A family of escapes: whether an octal number needs a zero in front, and whether there are
hexadecimal ones. -/
structure Escapes where
  zero : Bool := false
  hex : Bool := false
  /-- An escape that cuts the text short. -/
  cut : Bool := true

/-- The text that escapes write, and whether it was cut short. -/
def Escapes.expand (e : Escapes) : (fuel : Nat) → List Char → List Char × Bool
  | 0, cs => (cs, false)
  | _, [] => ([], false)
  | fuel + 1, '\\' :: c :: cs =>
    let after (d : List Char) (rest : List Char) : List Char × Bool :=
      let (text, cut) := e.expand fuel rest
      (d ++ text, cut)
    let octal (ds : List Char) : Nat × List Char :=
      let digits := (ds.take 3).takeWhile fun c => (digitValue? 8 c).isSome
      (digitsValue 8 digits % 256, ds.drop digits.length)
    if c = 'a' then after ['\x07'] cs
    else if c = 'b' then after ['\x08'] cs
    else if c = 'e' then after ['\x1b'] cs
    else if c = 'f' then after ['\x0c'] cs
    else if c = 'n' then after ['\n'] cs
    else if c = 'r' then after ['\r'] cs
    else if c = 't' then after ['\t'] cs
    else if c = 'v' then after ['\x0b'] cs
    else if c = '\\' then after ['\\'] cs
    else if c = 'c' ∧ e.cut then ([], true)
    else if c = '0' ∧ e.zero then
      let (n, rest) := octal cs
      after [Char.ofNat n] rest
    else if c = 'x' ∧ e.hex then
      let digits := (cs.take 2).takeWhile fun c => (digitValue? 16 c).isSome
      if digits.isEmpty then after ['\\', 'x'] cs
      else after [Char.ofNat (digitsValue 16 digits)] (cs.drop digits.length)
    else if (digitValue? 8 c).isSome then
      let (n, rest) := octal (c :: cs)
      after [Char.ofNat n] rest
    else after ['\\', c] cs
  | fuel + 1, c :: cs =>
    let (text, cut) := e.expand fuel cs
    (c :: text, cut)

/-- The text that escapes write in a text. -/
def Escapes.ofText (e : Escapes) (s : String) : List Char × Bool :=
  e.expand (s.length + 1) s.toList

/-- Print the words in a line. -/
def echo : Utility := fun _ args => do
  let (args, ending) := match args with
    | "-n" :: args => (args, "")
    | args => (args, "\n")
  let (text, cut) := Escapes.ofText { zero := true } (" ".intercalate args)
  Run.print (String.ofList text ++ (if cut then "" else ending))
  return 0

/-- Print the words in a line, with escapes only if an option asks for them. -/
def plainEcho : Utility := fun _ args => do
  let isOption (s : String) : Bool :=
    match s.toList with
    | '-' :: c :: cs => (c :: cs).all fun c => c = 'n' || c = 'e' || c = 'E'
    | _ => false
  let letters := (args.takeWhile isOption).flatMap String.toList
  let words := args.dropWhile isOption
  let escapes := letters.reverse.find? (fun c => c = 'e' || c = 'E') = some 'e'
  let text := " ".intercalate words
  let (text, cut) := if escapes then Escapes.ofText { zero := true, hex := true } text
    else (text.toList, false)
  Run.print (String.ofList text ++ (if cut || letters.contains 'n' then "" else "\n"))
  return 0

/-! ## Formats -/

/-- How something is converted. -/
structure Conversion where
  left : Bool := false
  plus : Bool := false
  space : Bool := false
  zeros : Bool := false
  alternate : Bool := false
  width : Nat := 0
  places : Option Nat := none

namespace Conversion

/-- A sign and a body, put together in the width that is asked for. -/
def aligned (c : Conversion) (zeros : Bool) (sign body : String) : String :=
  let size := sign.length + body.length
  if c.left then leftAligned c.width (sign ++ body)
  else if zeros then
    sign ++ String.ofList (List.replicate (c.width - size) '0') ++ body
  else rightAligned c.width (sign ++ body)

/-- A text. -/
def text (c : Conversion) (s : String) : String :=
  let s := match c.places with
    | some n => String.ofList (s.toList.take n)
    | none => s
  c.aligned false "" s

/-- The sign in front of a number. -/
def sign (c : Conversion) (negative : Bool) : String :=
  if negative then "-" else if c.plus then "+" else if c.space then " " else ""

/-- Digits, at least as many as are asked for. -/
def padded (c : Conversion) (digits : String) : String :=
  match c.places with
  | some n =>
    if n = 0 && digits = "0" then ""
    else String.ofList (List.replicate (n - digits.length) '0') ++ digits
  | none => digits

/-- A whole number with a sign. -/
def integer (c : Conversion) (n : Int) : String :=
  c.aligned (c.zeros && c.places.isNone) (c.sign (n < 0)) (c.padded (toString n.natAbs))

/-- A number without a sign in a base. -/
def unsigned (c : Conversion) (base : Nat) (upper : Bool) (n : Nat) : String :=
  let digits := String.ofList (Nat.toDigits base n)
  let digits := if upper then digits.toUpper else digits
  let mark := if !c.alternate || n = 0 then "" else if base = 16 then if upper then "0X" else "0x"
    else if base = 8 then "0" else ""
  c.aligned (c.zeros && c.places.isNone) mark (c.padded digits)

/-- A number with digits behind the point. -/
def fixed (places : Nat) (num den : Nat) : String :=
  fixedText places 0 (Decimal.Binary64.roundQuotient (num * Nat.pow 10 places) den)

/-- The exponent of ten of a positive ratio. -/
def tenLog (num den : Nat) : Int :=
  let up := (toString (num / den)).length
  if den ≤ num then up - 1
  else
    let rec go : (fuel : Nat) → (n : Nat) → Int → Int
      | 0, _, e => e
      | fuel + 1, n, e => if den ≤ n then e else go fuel (n * 10) (e - 1)
    go 400 num 0

/-- A number with an exponent of ten, and that exponent. -/
def scientific (places : Nat) (num den : Nat) : String × Int :=
  let e := if num = 0 then 0 else tenLog num den
  let at_ (e : Int) : Nat :=
    let p := (places : Int) - e
    Decimal.Binary64.roundQuotient (num * Nat.pow 10 p.toNat) (den * Nat.pow 10 (-p).toNat)
  let (m, e) := if Nat.pow 10 (places + 1) ≤ at_ e then (at_ (e + 1), e + 1) else (at_ e, e)
  let exponent := toString e.natAbs
  let exponent := if exponent.length < 2 then "0" ++ exponent else exponent
  (fixedText places 0 m ++ "e" ++ (if e < 0 then "-" else "+") ++ exponent, e)

/-- A number without zeros at the end of its fraction. -/
def trimmed (s : String) : String :=
  let (body, tail) := (s.toList.takeWhile (· ≠ 'e'), s.toList.dropWhile (· ≠ 'e'))
  let body := if body.contains '.' then
      ((body.reverse.dropWhile (· = '0')).dropWhile (· = '.')).reverse
    else body
  String.ofList (body ++ tail)

/-- A number in one of the notations. -/
def real (c : Conversion) (kind : Char) (n : Real) : String :=
  let x := (Decimal.Binary64.ofRatio n.num n.den).getD .zero
  let num := x.significand * Nat.pow 2 x.exponent.toNat
  let den := Nat.pow 2 (-x.exponent).toNat
  let places := c.places.getD 6
  let body :=
    if kind = 'f' ∨ kind = 'F' then fixed places num den
    else if kind = 'e' ∨ kind = 'E' then (scientific places num den).1
    else
      let places := max 1 places
      let (s, e) := scientific (places - 1) num den
      let s := if -4 ≤ e && e < places then fixed ((places : Int) - 1 - e).toNat num den else s
      if c.alternate then s else trimmed s
  let body := if kind.isUpper then body.toUpper else body
  if n.endless then
    c.aligned false (c.sign n.negative) (if kind.isUpper then "INF" else "inf")
  else c.aligned c.zeros (c.sign n.negative) body

end Conversion

/-- How a shell and a program say what is wrong with a format. -/
structure FormatTexts where
  /-- A number is expected in the place of a text. -/
  notNumber : String → String
  partNumber : String → String
  outOfRange : String → String
  badDirective : String → String
  badStatus : Nat
  /-- The letters of sizes of numbers, which change nothing. -/
  sizes : List Char := []

/-- Printing in a format: what is printed so far, the words that are left, the complaints, and
whether a word was asked for. -/
structure Formatting where
  printed : List Char := []
  words : List String
  /-- What was complained about, and how many characters had been printed then. -/
  complaints : List (Nat × String) := []
  asked : Bool := false
  /-- Nothing more is printed, and the status of that. -/
  stopped : Option Nat := none

/-- The steps of printing in a format. -/
abbrev Format := StateM Formatting

namespace Format

/-- Print characters. -/
def put (cs : List Char) : Format Unit :=
  modify fun f => { f with printed := f.printed ++ cs }

/-- The next word. -/
def word? : Format (Option String) := do
  let f ← get
  set { f with asked := true, words := f.words.tail }
  return f.words.head?

/-- A complaint. -/
def complain (text : String) : Format Unit :=
  modify fun f => { f with complaints := f.complaints ++ [(f.printed.length, text)] }

/-- The number that the next word is. -/
def number (t : FormatTexts) : Format Int := do
  match ← word? with
  | none => return 0
  | some s =>
    match s.toList with
    | '"' :: cs => return ((cs.head?).map Char.toNat).getD 0
    | '\'' :: cs => return ((cs.head?).map Char.toNat).getD 0
    | [] => return 0
    | cs =>
      let cs := cs.dropWhile isSpace
      let (negative, cs) := match cs with
        | '-' :: cs => (true, cs)
        | '+' :: cs => (false, cs)
        | cs => (false, cs)
      let (base, digits, rest) := numeral cs
      let n := digitsValue base digits
      if digits.isEmpty then
        complain (t.notNumber s)
        return 0
      if !rest.isEmpty then complain (t.partNumber s)
      let most := maxNumber + if negative then 1 else 0
      if most < n then complain (t.outOfRange s)
      let n := min n most
      return if negative then -n else n

/-- The real number that the next word is. -/
def real (t : FormatTexts) : Format Real := do
  match ← word? with
  | none => return {}
  | some "" => return {}
  | some s =>
    match s.toList with
    | '"' :: cs => return { num := ((cs.head?).map Char.toNat).getD 0 }
    | '\'' :: cs => return { num := ((cs.head?).map Char.toNat).getD 0 }
    | cs =>
      match Real.ofChars cs with
      | some (n, rest) =>
        unless rest.isEmpty do complain (t.partNumber s)
        return n
      | none =>
        complain (t.notNumber s)
        return {}

/-- A width or a number of places that comes next, and what follows it. -/
def amount (t : FormatTexts) : List Char → Format (Option Int × List Char)
  | '*' :: cs => do return (some (← number t), cs)
  | cs =>
    let digits := cs.takeWhile Char.isDigit
    return (if digits.isEmpty then none else some (digitsValue 10 digits), cs.drop digits.length)

/-- Do a conversion, and give back what follows it. -/
def convert (t : FormatTexts) (cs : List Char) : Format (List Char) := do
  let marks := cs.takeWhile fun c => c = '#' || c = '-' || c = '+' || c = ' ' || c = '0'
  let (width, rest) ← amount t (cs.drop marks.length)
  let (places, rest) ← match rest with
    | '.' :: rest => do
      let (n, rest) ← amount t rest
      pure (some (n.getD 0), rest)
    | rest => pure (none, rest)
  let rest := rest.dropWhile fun c => t.sizes.contains c
  let width := width.getD 0
  let c : Conversion := {
    left := marks.contains '-' || width < 0, plus := marks.contains '+'
    space := marks.contains ' ', zeros := marks.contains '0', alternate := marks.contains '#'
    width := width.natAbs
    places := places.bind fun n => if n < 0 then none else some n.toNat }
  let wrapped (n : Int) : Nat := (n % (18446744073709551616 : Int)).toNat
  match rest with
  | [] =>
    complain (t.badDirective (String.ofList ('%' :: cs)))
    modify fun f => { f with stopped := some t.badStatus }
    return []
  | k :: rest =>
    if k = 's' then put (c.text ((← word?).getD "")).toList
    else if k = 'b' then
      let (text, cut) := Escapes.ofText { zero := true } ((← word?).getD "")
      put (c.text (String.ofList text)).toList
      if cut then modify fun f => { f with stopped := some 0 }
    else if k = 'c' then
      let cs := ((← word?).getD "").toList
      put (c.text (String.singleton (cs.headD '\x00'))).toList
    else if k = 'd' ∨ k = 'i' then put (c.integer (← number t)).toList
    else if k = 'u' then put (c.unsigned 10 false (wrapped (← number t))).toList
    else if k = 'o' then put (c.unsigned 8 false (wrapped (← number t))).toList
    else if k = 'x' then put (c.unsigned 16 false (wrapped (← number t))).toList
    else if k = 'X' then put (c.unsigned 16 true (wrapped (← number t))).toList
    else if k ∈ ['e', 'E', 'f', 'F', 'g', 'G'] then put (c.real k (← real t)).toList
    else
      let size := cs.length - rest.length
      complain (t.badDirective (String.ofList ('%' :: cs.take size)))
      modify fun f => { f with stopped := some t.badStatus }
    return rest

/-- Use the format once. -/
def once (t : FormatTexts) (e : Escapes) : (fuel : Nat) → List Char → Format Unit
  | 0, _ => pure ()
  | _, [] => pure ()
  | fuel + 1, cs => do
    if (← get).stopped.isSome then return
    match cs with
    | '%' :: '%' :: rest =>
      put ['%']
      once t e fuel rest
    | '%' :: rest => once t e fuel (← convert t rest)
    | '\\' :: _ =>
      let digits := ((cs.drop 1).take 3).takeWhile fun c => (digitValue? 8 c).isSome
      let size :=
        if !digits.isEmpty then digits.length + 1
        else if e.hex && cs[1]? = some 'x' then
          2 + (((cs.drop 2).take 2).takeWhile fun c => (digitValue? 16 c).isSome).length
        else 2
      let (text, cut) := e.expand (size + 1) (cs.take size)
      put text
      if cut then modify fun f => { f with stopped := some 0 }
      once t e fuel (cs.drop size)
    | c :: rest =>
      put [c]
      once t e fuel rest
    | [] => pure ()

/-- Use the format as long as there are words for it. -/
def again (t : FormatTexts) (e : Escapes) (format : List Char) : (fuel : Nat) → Format Unit
  | 0 => pure ()
  | fuel + 1 => do
    modify fun f => { f with asked := false }
    once t e (format.length + 1) format
    let f ← get
    if f.asked && !f.words.isEmpty && f.stopped.isNone then again t e format fuel

end Format

/-- Words in a format. -/
def formatted (t : FormatTexts) (e : Escapes) (format : String) (words : List String) :
    Formatting :=
  (Format.again t e format.toList (words.length + 2) { words }).2

/-- The status of printing in a format. -/
def Formatting.status (f : Formatting) : Nat :=
  match f.stopped with
  | some n => n
  | none => if f.complaints.isEmpty then 0 else 1

/-- Print what is printed in a format, and each complaint in its place. -/
def Formatting.print (wrong : String → Run Unit) (f : Formatting) : Run Unit := do
  let place ← f.complaints.foldlM (fun place (next, text) => do
    Run.print (String.ofList ((f.printed.take next).drop place))
    wrong text
    return next) 0
  Run.print (String.ofList (f.printed.drop place))

/-- The words of a shell for what is wrong with a format. -/
def shellFormatTexts : FormatTexts := {
  notNumber := (· ++ ": expected numeric value")
  partNumber := (· ++ ": not completely converted")
  outOfRange := (· ++ ": Numerical result out of range")
  badDirective := (· ++ ": invalid directive")
  badStatus := 2 }

/-- The words of a program for what is wrong with a format. -/
def programFormatTexts : FormatTexts := {
  notNumber := fun s => cited s ++ ": expected a numeric value"
  partNumber := fun s => cited s ++ ": value not completely converted"
  outOfRange := fun s => cited s ++ ": Numerical result out of range"
  badDirective := (· ++ ": invalid conversion specification")
  badStatus := 1
  sizes := ['l', 'L', 'h', 'j', 't', 'z'] }

/-- Print words in a format, as a part of the shell. -/
def printf : Utility := fun _ args => do
  let print (args : List String) : Run Nat := do
    match args with
    | [] =>
      Run.warn "usage: printf format [arg ...]"
      return 2
    | format :: words =>
      let f := formatted shellFormatTexts { cut := false } format words
      f.complaints.forM fun c => Run.warn c.2
      Run.print (String.ofList f.printed)
      return f.status
  match args with
  | "--" :: args => print args
  | arg :: args =>
    match arg.toList with
    | '-' :: c :: _ =>
      Run.warn ("Illegal option -" ++ String.singleton c)
      return 2
    | _ => print (arg :: args)
  | [] => print []

/-- Print words in a format, as a program. -/
def printfProgram : Utility := fun tool args => do
  let args := if args.head? = some "--" then args.tail else args
  match args with
  | [] => lacking tool 1
  | format :: words =>
    let f := formatted programFormatTexts { hex := true } format words
    f.print (complain tool)
    if let w :: _ := f.words then
      complain tool ("warning: ignoring excess arguments, starting with " ++ cited w)
    return f.status

end ShaderVariants.Script.Utility

import PageMeta.AttributeMap.Basic
import PageMeta.Plain.Argument
import PageMeta.Plain.Search
import PageMeta.Text.Class
import PageMeta.Text.Case

/-!
# Functions of texts

`callText` calls a function of texts on a text.  Where nothing changes, most functions give the very
text that they were called on.
-/

namespace PageMeta.Plain

/-- Whether a character is a gap between words. -/
def isGap (c : Char) : Bool := Text.isBlank c || (0x1c ≤ c.toNat && c.toNat ≤ 0x1f)

/-- The characters that end a line. -/
def isLineEnd (c : Char) : Bool :=
  [0xa, 0xb, 0xc, 0xd, 0x1c, 0x1d, 0x1e, 0x85, 0x2028, 0x2029].contains c.toNat

/-- The lines of a text, with their ends or without; the end of a line can have two characters. -/
def lines (keepsEnds : Bool) : List Char → List Char → List (List Char)
  | [], [] => []
  | line, [] => [line.reverse]
  | line, '\r' :: '\n' :: rest =>
    (line.reverse ++ (if keepsEnds then ['\r', '\n'] else [])) :: lines keepsEnds [] rest
  | line, c :: rest =>
    if isLineEnd c then
      (line.reverse ++ (if keepsEnds then [c] else [])) :: lines keepsEnds [] rest
    else lines keepsEnds (c :: line) rest

/-- Drops items at the ends of a text. -/
def stripBy (isDropped : Char → Bool) (front back : Bool) (s : List Char) : List Char :=
  let s := if front then s.dropWhile isDropped else s
  if back then (s.reverse.dropWhile isDropped).reverse else s

/-- A text filled up to a width. -/
def fill (s : List Char) (width : Int) (c : Char) (isLeft isRight : Bool) : List Char :=
  let missing := width.toNat - s.length
  let left :=
    if isLeft && isRight then missing / 2 + (missing % 2) * (width.toNat % 2)
    else if isLeft then missing else 0
  List.replicate left c ++ s ++ List.replicate (missing - left) c

/-- A number of digits filled up with zeros behind its sign. -/
def fillZeros (s : List Char) (width : Int) : List Char :=
  let missing := width.toNat - s.length
  match missing, s with
  | 0, _ => s
  | _, '+' :: rest => '+' :: List.replicate missing '0' ++ rest
  | _, '-' :: rest => '-' :: List.replicate missing '0' ++ rest
  | _, _ => List.replicate missing '0' ++ s

/-- A text with tabs as blanks up to the next column that is a multiple of a width. -/
def expandTabs (width : Int) : Nat → List Char → List Char
  | _, [] => []
  | column, c :: rest =>
    if c = '\t' then
      let gap := if 0 < width then width.toNat - column % width.toNat else 0
      List.replicate gap ' ' ++ expandTabs width (column + gap) rest
    else c :: expandTabs width (if c = '\n' ∨ c = '\r' then 0 else column + 1) rest

/-- A part in front of or behind a text is dropped. -/
def dropPart (isFront : Bool) (part s : List Char) : List Char :=
  if isFront then if part.isPrefixOf s then s.drop part.length else s
  else if !part.isEmpty && part.isSuffixOf s then s.take (s.length - part.length) else s

/-! ## Encodings -/

/-- The name under which an encoding is known. -/
def plainName (name : String) : String :=
  String.ofList ((name.toList.map Char.toLower).map fun c =>
    if c = '_' || c = ' ' then '-' else c)

/-- The names of the encoding of every character. -/
def universalNames : List String := ["utf-8", "utf8", "u8", "utf", "cp65001"]

/-- The encodings that have the first characters only: their names, and how many they have. -/
def smallEncodings : List (List String × String × Nat) :=
  [(["ascii", "us-ascii", "646"], "ascii", 0x80),
   (["latin-1", "latin1", "iso-8859-1", "iso8859-1", "8859", "l1", "latin"], "latin-1", 0x100)]

/-- The bytes of a text in an encoding of its first characters. -/
def encodeSmall (name : String) (limit : Nat) (errors : String) (s : List Char) :
    Except Fault (List UInt8) :=
  let isFine := fun c : Char => decide (c.toNat < limit)
  let bytes := fun cs : List Char => cs.map fun c => c.toNat.toUInt8
  if errors = "ignore" then .ok (bytes (s.filter isFine))
  else if errors = "replace" then .ok (bytes (s.map fun c => if isFine c then c else '?'))
  else
    let first := (s.takeWhile isFine).length
    match s.drop first with
    | [] => .ok (bytes s)
    | c :: rest =>
      let last := first + (rest.takeWhile (! isFine ·)).length
      .error (.notEncodable name first last c limit)

/-- The bytes of a text in an encoding. -/
def encodeText (encoding errors : String) (s : List Char) : Except Fault (List UInt8) :=
  let name := plainName encoding
  if universalNames.contains name then .ok (String.ofList s).toUTF8.toList
  else
    match smallEncodings.find? fun p => p.1.contains name with
    | some (_, shown, limit) => encodeSmall shown limit errors s
    | none => .error (.unknownEncoding encoding)

/-- The text of bytes in an encoding. -/
def decodeBytes (encoding errors : String) (bs : List UInt8) : Except Error String :=
  let name := plainName encoding
  if universalNames.contains name then
    match Text.decode bs with
    | .ok s => .ok s
    | .error fault => .error (.notUtf8 fault)
  else
    match smallEncodings.find? fun p => p.1.contains name with
    | some (_, shown, limit) =>
      let isFine := fun b : UInt8 => decide (b.toNat < limit)
      let text := fun bs : List UInt8 => String.ofList (bs.map fun b => Char.ofNat b.toNat)
      if errors = "ignore" then .ok (text (bs.filter isFine))
      else
        match bs.drop (bs.takeWhile isFine).length with
        | [] => .ok (text bs)
        | b :: _ => .error (.plain (.notDecodable shown b (bs.takeWhile isFine).length limit))
    | none => .error (.plain (.unknownEncoding encoding))

/-- The names of an encoding and of a way to treat faults, from two places on. -/
def encodingAt (function : String) (places : Places) (i : Nat) :
    Heap.Action (String × String) := do
  let named := fun (i : Nat) (name default : String) => do
    match places.at? i with
    | none => return default
    | some v =>
      return String.ofList
        (← textFor (function ++ "() argument '" ++ name ++ "'") "be str" v)
  let encoding ← named i "encoding" "utf-8"
  let errors ← named (i + 1) "errors" "strict"
  return (encoding, errors)

/-! ## Calls -/

/-- What a function that only looks at the characters of a text says. -/
def textFact? (name : String) (s : List Char) : Option Bool :=
  let all := fun p : Char → Bool => !s.isEmpty && s.all p
  match name with
  | "isalnum" => some (all Text.isAlphanumeric)
  | "isalpha" => some (all Text.isAlphabetic)
  | "isascii" => some (s.all fun c => decide (c.toNat < 0x80))
  | "isdecimal" => some (all Text.isDecimalDigit)
  | "isdigit" => some (all Text.isDigit)
  | "isnumeric" => some (all Text.isNumeric)
  | "isprintable" => some (s.all Text.isPrintable)
  | "isspace" => some (all isGap)
  | "islower" => some (s.any Text.isLower && !s.any Text.isRaised)
  | "isupper" => some (s.any Text.isRaised && !s.any Text.isLower && !s.any Text.isTitle)
  | "istitle" => some (Text.isTitled s)
  | "isidentifier" => some (Text.isIdentifier s)
  | _ => none

/-- A text in another case. -/
def recased? (name : String) (s : List Char) : Option (List Char) :=
  match name with
  | "lower" => some (Text.lower s)
  | "upper" => some (Text.upper s)
  | "casefold" => some (Text.fold s)
  | "capitalize" => some (Text.capitalize s)
  | "title" => some (Text.titled s)
  | "swapcase" => some (Text.swapCase s)
  | _ => none

/-- The number of cuts or replacements that a number stands for: a negative one for all. -/
def timesOf (n : Int) (s : List Char) : Nat := if n < 0 then s.length + 1 else n.toNat

/-- The parts that splitting a text gives. -/
def splitText (s : List Char) (places : Places) (isLast : Bool) :
    Heap.Action (List (List Char)) := do
  let separator? ← match places.at? 0 with
    | none | some .none => pure none
    | some v => some <$> textFor "" "be str or None" v
  let cuts := timesOf (← places.index 1 (-1)) s
  match separator? with
  | none =>
    return (if isLast then splitLastRuns isGap (s.length + 1) cuts s
      else splitRuns isGap (s.length + 1) cuts s)
  | some [] => fail .emptySeparator
  | some separator =>
    return (if isLast then splitAtLast separator cuts s else splitAt separator cuts s)

/-- The three parts of a text around a separator. -/
def partitionText (v : Value) (s : List Char) (separator : Value) (isLast : Bool) :
    Heap.Action Value := do
  let part ← textFor "" "be str" separator
  if part.isEmpty then fail .emptySeparator
  let found := if isLast then findLast? part s 0 s.length else findPart? part s 0 s.length
  match found, isLast with
  | some n, _ =>
    newScalarTuple [partOf v (s.take n), separator, partOf v (s.drop (n + part.length))]
  | none, false => newScalarTuple [v, .ofText "", .ofText ""]
  | none, true => newScalarTuple [.ofText "", .ofText "", v]

/-- Whether a text begins or ends with one of some parts. -/
def touches (name : String) (s : List Char) (places : Places) : Heap.Action Bool := do
  let (start, stop) ← places.bounds 1 true
  let low := boundIn s.length start
  let high := boundIn s.length stop
  let test := fun part : List Char =>
    start ≤ s.length && low ≤ high &&
      let searched := between s low high
      if name = "startswith" then part.isPrefixOf searched else part.isSuffixOf searched
  match (← get).cell? (places.at 0) with
  | some (.tuple parts) => anyPart test parts
  | _ => do
    return test (← textFor (name ++ " first arg") "be str or a tuple of str" (places.at 0))
where
  /-- Whether a test holds of one of some parts. -/
  anyPart (test : List Char → Bool) : List Value → Heap.Action Bool
    | [] => pure false
    | v :: rest => do
      let part ← textFor ("tuple for " ++ name) "only contain str" v
      if test part then return true else anyPart test rest

/-- The texts in a sequence, joined. -/
def joinTexts (separator : List Char) (v : Value) : Heap.Action Value := do
  let items ← tryCatch (Heap.elements v) fun
    | .notIterable _ => fail .notJoinable
    | e => throw e
  let texts ← textsFrom 0 items
  match items with
  | [.text s mark] => return .text s mark
  | _ => return made (separator.intercalate texts)
where
  /-- The texts in a list, from the item with number `n` on. -/
  textsFrom : Nat → List Value → Heap.Action (List (List Char))
    | _, [] => pure []
    | n, v :: rest =>
      match v.text? with
      | some s => do
        let others ← textsFrom (n + 1) rest
        return s.toList :: others
      | none => do fail (.joinItem n ((← get).typeName v))

/-- A text with parts replaced. -/
def replaceText (v : Value) (s : List Char) (places : Places) : Heap.Action Value := do
  let old ← textFor "replace() argument 1" "be str" (places.at 0)
  let new ← textFor "replace() argument 2" "be str" (places.at 1)
  let times := timesOf (← places.index 2 (-1)) s
  return partOf v
    (if old.isEmpty then interleave new times s else replaceParts old new times s)

/-- A text filled up, by the arguments of a call. -/
def fillText (v : Value) (s : List Char) (name : String) (places : Places) :
    Heap.Action Value := do
  let width ← places.index 0 0
  let c ← match places.at? 1 with
    | none => pure ' '
    | some w =>
      match w.text? with
      | none => fail (.wrongType "The fill character" "be a unicode character" ((← get).typeName w))
      | some t =>
        match t.toList with
        | [c] => pure c
        | _ => fail (.badFill "The fill character")
  return partOf v (fill s width c (name != "ljust") (name != "rjust"))

/-- What a search in a text finds. -/
def searchText (name : String) (s : List Char) (places : Places) : Heap.Action Value := do
  let part ← textFor "" "be str" (places.at 0)
  let (start, stop) ← places.bounds 1 true
  let found := if name.startsWith "r" then findLast? part s start stop
    else findPart? part s start stop
  match name, found with
  | "count", _ => return .newInt (countParts part s start stop)
  | _, some n => return .newInt n
  | "find", none | "rfind", none => return .ofInt (-1)
  | _, none => fail (.partNotFound "substring")

/-- The characters by which characters are replaced, as a table gives them. -/
def translated (table : Value) : List Char → Heap.Action (List Char)
  | [] => pure []
  | c :: rest => do
    let h ← get
    let found ← match table, h.cell? table with
      | _, some (.dict entries) => pure (entries.get? (.atom (.ofInt c.toNat)))
      | .ref r, some (.map _) =>
        pure (some (AttributeMap.getD h r (.ofInt c.toNat) .none))
      | _, _ => throw (.notSubscriptable (h.typeName table))
    let own ← match found with
      | none => pure [c]
      | some .none => pure []
      | some w =>
        match w.text?, w.integer? with
        | some s, _ => pure s.toList
        | none, some n => pure [Char.ofNat n.toNat]
        | none, none => fail (.wrongType "character mapping" "return integer, None or str" "")
    let others ← translated table rest
    return own ++ others

/-- Calls a function of texts on a text. -/
def callText (v : Value) (s : List Char) (name : String) (places : Places) :
    Heap.Action Value := do
  match textFact? name s, recased? name s with
  | some b, _ => return .bool b
  | none, some t => return made t
  | none, none =>
    match name with
    | "strip" | "lstrip" | "rstrip" => do
      let isDropped ← match places.at? 0 with
        | none | some .none => pure isGap
        | some w =>
          match w.text? with
          | some t => pure fun c => t.toList.contains c
          | none => fail (.wrongType (name ++ " arg") "be None or str" "")
      return partOf v (stripBy isDropped (name != "rstrip") (name != "lstrip") s)
    | "split" | "rsplit" => do
      newScalars ((← splitText s places (name = "rsplit")).map (partOf v))
    | "splitlines" => do
      let keepsEnds := (← places.index 0 0) != 0
      newScalars ((lines keepsEnds [] s).map (partOf v))
    | "partition" | "rpartition" => partitionText v s (places.at 0) (name = "rpartition")
    | "removeprefix" | "removesuffix" => do
      let part ← textFor (name ++ "() argument") "be str" (places.at 0)
      return partOf v (dropPart (name = "removeprefix") part s)
    | "replace" => replaceText v s places
    | "zfill" => return partOf v (fillZeros s (← places.index 0 0))
    | "center" | "ljust" | "rjust" => fillText v s name places
    | "expandtabs" => return partOf v (expandTabs (← places.index 0 8) 0 s)
    | "join" => joinTexts s (places.at 0)
    | "startswith" | "endswith" => .bool <$> touches name s places
    | "count" | "find" | "index" | "rfind" | "rindex" => searchText name s places
    | "encode" => do
      let (encoding, errors) ← encodingAt "encode" places 0
      match encodeText encoding errors s with
      | .ok bs => return .bytes bs .pending
      | .error fault => fail fault
    | "translate" => return made (← translated (places.at 0) s)
    | "__add__" =>
      match (places.at 0).text? with
      | some t => return partOf v (s ++ t.toList)
      | none => do fail (.concatenation "str" ((← get).typeName (places.at 0)))
    | "__mul__" | "__rmul__" => do
      let n ← indexOf (places.at 0)
      return partOf v (List.replicate n.toNat s).flatten
    | "__getnewargs__" => newScalarTuple [made s]
    | _ => throw (.noAttribute "str" name)

end PageMeta.Plain
